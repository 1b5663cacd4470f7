/-
Results of commands.

A command answers with its events, its output and its error.  The exit code and
the error stream follow from them: the log of the events goes to the error stream,
and the error comes last.  How a log is written is up to the one who keeps it.
-/
import UrlFilter.Command.Error
import UrlFilter.Event
import UrlFilter.Text.ControlSequence

namespace UrlFilter

/-- The part of the program that an event comes from, as log lines name it. -/
def Event.target : Event → String
  | hidingRuleSkipped _ => "abp_compiler::parser"
  | optionIgnored _ => "abp_compiler::parser"
  | lineRejected _ _ => "abp_compiler::list"
  | exclusionIgnored _ _ => "abp_core::matcher"
  | listLoaded _ _ _ _ => "abpvm::rules"

/-- The name of a level with blanks up to five characters. -/
def Level.padded (level : Level) : String :=
  level.name ++ String.ofList (List.replicate (5 - level.name.length) ' ')

/-- The text with every line but the first set in by four blanks. -/
def setIn (text : List Char) : List Char :=
  text.flatMap fun c => if c = '\n' then ['\n', ' ', ' ', ' ', ' '] else [c]

/-- What an event adds to a plain log: its level, the part of the program and its
text, without control sequences.  It is a line, unless the text has lines of its own
or a control sequence that does not end.  The time, which may stand in front of the level,
is left out. -/
def Event.logLine (event : Event) : String :=
  let source := "[" ++ event.level.padded ++ " " ++ event.target ++ "] "
  String.ofList (withoutControls (source.toList ++ setIn event.text.toList ++ ['\n']))

/-- The plain log of the events at or above a threshold.  Without a threshold it is
empty. -/
def logLines (threshold : Option Level) (events : List Event) : String :=
  match threshold with
  | none => ""
  | some level =>
      String.join ((events.filter fun event => level.rank ≤ event.level.rank).map Event.logLine)

/-- What a command comes to.  A check that finds errors has output as well. -/
structure CommandResult where
  events : List Event
  output : String
  error : Option CommandError
  deriving DecidableEq, Repr

namespace CommandResult

/-- The exit code: one exactly if there is an error. -/
def exitCode (result : CommandResult) : Nat :=
  if result.error.isSome then 1 else 0

/-- What goes to the error stream where a log is kept in some way. -/
def errorStreamWith (result : CommandResult) (log : List Event → String) : String :=
  log result.events ++
    match result.error with
    | some error => "Error: " ++ error.message ++ "\n"
    | none => ""

/-- What goes to the error stream with a plain log. -/
def errorStream (result : CommandResult) (threshold : Option Level) : String :=
  result.errorStreamWith (logLines threshold)

/-- The result of an error without output. -/
def failure (events : List Event) (error : CommandError) : CommandResult :=
  ⟨events, "", some error⟩

/-- The result of some output. -/
def success (events : List Event) (output : String) : CommandResult :=
  ⟨events, output, none⟩

end CommandResult

end UrlFilter
