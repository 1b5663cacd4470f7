/-
Events.

Compiling and matching tell what they pass over.  What is told is an event, and
the events of an input are a function of the input, so that nothing has to be
recorded on the way.
-/
import UrlFilter.Filter.Compile

namespace UrlFilter

/-- How much an event matters, from the least. -/
inductive Level
  | trace
  | debug
  | warn
  deriving DecidableEq, Repr

namespace Level

/-- The rank of a level. -/
def rank : Level → Nat
  | trace => 0
  | debug => 1
  | warn => 2

/-- The word for a level. -/
def name : Level → String
  | trace => "TRACE"
  | debug => "DEBUG"
  | warn => "WARN"

end Level

/-- Something that is told about an input. -/
inductive Event
  /-- A line is a rule for hiding elements. -/
  | hidingRuleSkipped (line : String)
  /-- An option of a filter means nothing. -/
  | optionIgnored (option : String)
  /-- A line of a list cannot be compiled.  Lines are numbered from one. -/
  | lineRejected (number : Nat) (error : CompileError)
  /-- The domain of a query contains an excluded token, which has no effect. -/
  | exclusionIgnored (domain rule : String)
  /-- A list was loaded. -/
  | listLoaded (name : String) (lines rules errors : Nat)
  deriving DecidableEq, Repr

namespace Event

/-- The level of an event. -/
def level : Event → Level
  | hidingRuleSkipped _ => .debug
  | optionIgnored _ => .debug
  | lineRejected _ _ => .warn
  | exclusionIgnored _ _ => .trace
  | listLoaded _ _ _ _ => .debug

/-- The text that tells an event. -/
def text : Event → String
  | hidingRuleSkipped line => "skipping element hiding rule " ++ quoted line
  | optionIgnored option => "ignoring unknown option " ++ quoted option
  | lineRejected number error => "line " ++ toString number ++ ": " ++ error.message
  | exclusionIgnored domain rule =>
      "ignoring excluded domain " ++ quoted domain ++ " for " ++ quoted rule
  | listLoaded name lines rules errors =>
      name ++ ": " ++ toString lines ++ " lines, " ++ toString rules ++ " rules, " ++
        toString errors ++ " errors"

end Event

/-- What reading a line tells: that it hides elements, or which of its options
mean nothing. -/
def Line.events (text : String) : List Event :=
  match Line.ofText text with
  | .blank | .comment => []
  | .elementHiding => [.hidingRuleSkipped text]
  | .filter parts => parts.unknownOptions.map .optionIgnored

/-- What matching a rule against a query tells. -/
def Rule.events (rule : Rule) (mode : ExclusionMode) (query : Query) : List Event :=
  if rule.ignoresExclusion mode query then [.exclusionIgnored query.domain rule.text]
  else []

end UrlFilter
