/-
Errors of commands.
-/
import UrlFilter.CompileError
import UrlFilter.Command.Surroundings

namespace UrlFilter

/-- Why a command fails. -/
inductive CommandError
  /-- There are no lists. -/
  | noLists
  /-- A file cannot be read. -/
  | unreadableFile (path : String) (fault : ReadFault)
  /-- The standard input cannot be read. -/
  | unreadableInput (fault : ReadFault)
  /-- A list holds a line that cannot be compiled. -/
  | invalidList (path : String) (error : CompileError)
  /-- There is nothing to match. -/
  | noUris
  /-- There is nothing to measure. -/
  | noUrisToMeasure
  /-- A check found lines that cannot be compiled. -/
  | rulesFailed (count : Nat)
  /-- What was to be reported has no JSON text. -/
  | unserializable (subject reason : String)
  deriving DecidableEq, Repr

/-- The text that reports an error. -/
def CommandError.message : CommandError → String
  | noLists => "No rule lists specified"
  | unreadableFile path fault => "Failed to read '" ++ path ++ "': " ++ fault.message
  | unreadableInput fault => "Failed to read stdin: " ++ fault.message
  | invalidList path error => path ++ ": " ++ error.message
  | noUris => "No URIs specified"
  | noUrisToMeasure => "No URIs to benchmark"
  | rulesFailed count => toString count ++ " rule(s) failed to compile"
  | unserializable subject reason => "Failed to serialize " ++ subject ++ ": " ++ reason

end UrlFilter
