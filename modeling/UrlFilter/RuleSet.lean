/-
Sets of rules.

A rule set holds rules in the order in which they were added, and that is the
order of its answers.  Rules are only ever added at the end.
-/
import UrlFilter.FilterList

namespace UrlFilter

/-- Rules in order, with the one way in which they all treat excluded domains. -/
structure RuleSet where
  rules : List Rule
  mode : ExclusionMode
  deriving DecidableEq, Repr

namespace RuleSet

/-- The rule set without rules. -/
def empty (mode : ExclusionMode) : RuleSet := ⟨[], mode⟩

/-- The number of rules. -/
def size (set : RuleSet) : Nat := set.rules.length

/-- Has the set no rules? -/
def isEmpty (set : RuleSet) : Bool := set.rules.isEmpty

/-- Add rules at the end. -/
def append (set : RuleSet) (rules : List Rule) : RuleSet :=
  { set with rules := set.rules ++ rules }

/-- Add a rule at the end. -/
def insert (set : RuleSet) (rule : Rule) : RuleSet :=
  set.append [rule]

@[simp]
theorem rules_append (set : RuleSet) (rules : List Rule) :
    (set.append rules).rules = set.rules ++ rules := rfl

theorem append_append (set : RuleSet) (left right : List Rule) :
    (set.append left).append right = set.append (left ++ right) := by
  simp [append]

/-- Compile a line and add its rule.  A line that is no filter adds nothing, and
neither does one that cannot be compiled. -/
def addLine (set : RuleSet) (text : String) : RuleSet × Except CompileError Unit :=
  match compileLine text with
  | .ok rule? => (set.append rule?.toList, .ok ())
  | .error error => (set, .error error)

/-- Compile a list and add its rules.  When the list as a whole fails, nothing
is added. -/
def load (set : RuleSet) (policy : Policy) (text : String) :
    RuleSet × Except CompileError ListStats :=
  match FilterList.compile policy text with
  | .ok (rules, stats) => (set.append rules, .ok stats)
  | .error error => (set, .error error)

/-- For every rule in order, whether it accepts a query. -/
def acceptances (set : RuleSet) (query : Query) : List Bool :=
  set.rules.map fun rule => rule.accepts set.mode query

/-- The answers collected so far with the text of a rule behind them, if the rule
accepts the query. -/
def collect (mode : ExclusionMode) (query : Query) (collected : List String)
    (rule : Rule) : List String :=
  if rule.accepts mode query then collected ++ [rule.text] else collected

/-- The answers to a query behind those already collected.  The rules are tried one
after the other. -/
def answersInto (set : RuleSet) (query : Query) (collected : List String) : List String :=
  set.rules.foldl (collect set.mode query) collected

/-- The answers to one query. -/
def answers (set : RuleSet) (query : Query) : List String :=
  set.answersInto query []

/-- The answers to a batch of queries, which are collected query after query. -/
def answersAll (set : RuleSet) (queries : List Query) : List String :=
  queries.foldl (fun collected query => set.answersInto query collected) []

/-- What matching a query tells, in order. -/
def events (set : RuleSet) (query : Query) : List Event :=
  set.rules.flatMap fun rule => rule.events set.mode query

end RuleSet

end UrlFilter
