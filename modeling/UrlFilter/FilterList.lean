/-
Filter lists.

A filter list is a text whose lines are trimmed and compiled one by one, in one
pass.  The pass carries along the rules and the errors, the counters, and what there is
to tell; a line raises the counter of what it is.  A line that cannot be compiled ends
the pass under one policy and is recorded, by its number, under the other.
-/
import UrlFilter.Event
import UrlFilter.Text.Blank
import UrlFilter.Text.Lines

namespace UrlFilter

/-- What becomes of a list with a line that cannot be compiled. -/
inductive Policy
  /-- The first such line is the answer, and no rule of the list is kept. -/
  | abort
  /-- Such lines are recorded, and the rules of the others are kept. -/
  | skip
  deriving DecidableEq, Repr

/-- What becomes of a line. -/
inductive LineOutcome
  | blank
  | comment
  | elementHiding
  | rule (rule : Rule)
  | failed (error : CompileError)
  deriving DecidableEq, Repr

namespace LineOutcome

/-- The outcome of a line as it stands. -/
def ofText (text : String) : LineOutcome :=
  match Line.ofText text with
  | .blank => blank
  | .comment => comment
  | .elementHiding => elementHiding
  | .filter filter =>
      match filter.compile with
      | .ok compiled => rule compiled
      | .error error => failed error

/-- The rule of a line that has one. -/
def rule? : LineOutcome → Option Rule
  | rule compiled => some compiled
  | _ => none

/-- The error of a line that cannot be compiled. -/
def error? : LineOutcome → Option CompileError
  | failed error => some error
  | _ => none

end LineOutcome

/-- The counts of a list. -/
structure ListStats where
  lines : Nat
  blank : Nat
  comments : Nat
  elementHiding : Nat
  rules : Nat
  errors : List CompileError
  deriving DecidableEq, Repr

namespace FilterList

/-- How far the pass over the lines of a list has come. -/
structure Progress where
  lines : Nat
  blank : Nat
  comments : Nat
  elementHiding : Nat
  rules : List Rule
  errors : List CompileError
  events : List Event
  deriving DecidableEq, Repr

namespace Progress

/-- Nothing has been read. -/
def start : Progress := ⟨0, 0, 0, 0, [], [], []⟩

/-- One line more.  A line that ends the pass is the answer, with what was told up to it. -/
def step (policy : Policy) (progress : Progress) (line : String) :
    Except (List Event × CompileError) Progress :=
  let counted := { progress with
    lines := progress.lines + 1
    events := progress.events ++ Line.events line }
  match LineOutcome.ofText line with
  | .blank => .ok { counted with blank := counted.blank + 1 }
  | .comment => .ok { counted with comments := counted.comments + 1 }
  | .elementHiding => .ok { counted with elementHiding := counted.elementHiding + 1 }
  | .rule compiled => .ok { counted with rules := counted.rules ++ [compiled] }
  | .failed error =>
      match policy with
      | .skip => .ok { counted with
          errors := counted.errors ++ [error]
          events := counted.events ++ [.lineRejected counted.lines error] }
      | .abort => .error (counted.events, error)

/-- The counts of a pass. -/
def stats (progress : Progress) : ListStats :=
  ⟨progress.lines, progress.blank, progress.comments, progress.elementHiding,
    progress.rules.length, progress.errors⟩

end Progress

/-- The pass over some lines, from where it has come to. -/
def pass (policy : Policy) (progress : Progress) (lines : List String) :
    Except (List Event × CompileError) Progress :=
  lines.foldlM (Progress.step policy) progress

/-- The trimmed lines of a list. -/
def lines (text : String) : List String :=
  (UrlFilter.lines text.toList).map fun line => String.ofList (trim line)

/-- The rules of a list with its counts, or under `abort` its first error. -/
def compile (policy : Policy) (text : String) :
    Except CompileError (List Rule × ListStats) :=
  match pass policy .start (lines text) with
  | .ok last => .ok (last.rules, last.stats)
  | .error (_, error) => .error error

/-- What loading a list tells, in order. -/
def events (policy : Policy) (text : String) : List Event :=
  match pass policy .start (lines text) with
  | .ok last => last.events
  | .error (events, _) => events

end FilterList

end UrlFilter
