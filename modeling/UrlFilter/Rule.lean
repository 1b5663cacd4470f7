/-
Rules.

A rule is a program with the domain tokens that restrict it.  It accepts a query
if its program accepts the URI and its tokens allow the domain.
-/
import UrlFilter.DomainToken
import UrlFilter.Program
import UrlFilter.Query

namespace UrlFilter

/-- What excluded domain tokens do. -/
inductive ExclusionMode
  /-- They never reject a query. -/
  | inert
  /-- They reject a query whose domain contains one of them. -/
  | enforced
  deriving DecidableEq, Repr

/-- A rule ready to match. -/
structure Rule where
  /-- The text that the rule was made from. -/
  text : String
  /-- The pattern text in its normal form. -/
  pattern : String
  program : Program
  flags : Flags
  included : List DomainToken
  excluded : List DomainToken
  deriving DecidableEq, Repr

namespace Rule

/-- Put a rule together.  Its domain flag says whether it has domain tokens,
whatever the flags given for it say. -/
def assemble (text pattern : String) (instructions : List Instruction)
    (flags : Flags) (included excluded : List DomainToken) : Rule :=
  let flags := flags.assign .domain (!included.isEmpty || !excluded.isEmpty)
  ⟨text, pattern, Program.ofInstructions instructions flags, flags, included, excluded⟩

/-- The domain flag of a rule says whether the rule has domain tokens. -/
theorem contains_domain_assemble (text pattern : String)
    (instructions : List Instruction) (flags : Flags) (included excluded : List DomainToken) :
    (assemble text pattern instructions flags included excluded).flags.contains .domain =
      (!included.isEmpty || !excluded.isEmpty) := by
  simp [assemble]

/-- Every other flag of a rule is as given. -/
theorem contains_assemble {text pattern : String} {instructions : List Instruction}
    {flags : Flags} {included excluded : List DomainToken} {flag : Flag}
    (h : flag ≠ .domain) :
    (assemble text pattern instructions flags included excluded).flags.contains flag =
      flags.contains flag := by
  simp [assemble, h]

/-- Does the domain contain an excluded token? -/
def excludes (rule : Rule) (domain : String) : Bool :=
  rule.excluded.any fun token => token.occursIn domain

/-- Does the domain contain an included token? -/
def includes (rule : Rule) (domain : String) : Bool :=
  rule.included.any fun token => token.occursIn domain

/-- Do the domain tokens allow a domain?  With tokens, one of the included ones
has to be in it, so a rule with excluded tokens only allows no domain. -/
def allowsDomain (rule : Rule) (mode : ExclusionMode) (domain : String) : Bool :=
  if rule.flags.contains .domain then
    !(mode = .enforced && rule.excludes domain) && rule.includes domain
  else true

/-- Does the rule accept a query? -/
def accepts (rule : Rule) (mode : ExclusionMode) (query : Query) : Bool :=
  rule.program.accepts query.bytes && rule.allowsDomain mode query.domain

/-- Is an excluded token in the domain of a query passed over, where it would
reject the query if exclusions were enforced? -/
def ignoresExclusion (rule : Rule) (mode : ExclusionMode) (query : Query) : Bool :=
  rule.program.accepts query.bytes && rule.flags.contains .domain &&
    mode = .inert && rule.excludes query.domain

end Rule

end UrlFilter
