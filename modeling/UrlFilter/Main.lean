/-
The program: gather what a command reads, run the command, and write what it
comes to.
-/
import UrlFilter.Command.Invocation
import UrlFilter.Command.Run
import UrlFilter.Command.Timing

namespace UrlFilter

/-- How the program is called. -/
def usage : String :=
  String.join
    ["usage: urlfilter [-v] match --rules LIST... [--enforce-exclusions] [--skip-invalid]\n",
     "                 [--json] [--uris FILE] [--] [URI...]\n",
     "       urlfilter [-v] check --rules LIST...\n",
     "       urlfilter [-v] dump --rules LIST... [--json]\n",
     "       urlfilter [-v] bench --rules LIST... --uris FILE [--iterations N]\n"]

/-- Does a code stand for a number?  The system gives codes with either sign. -/
def isCode (number code : UInt32) : Bool :=
  code = number || code = 0 - number

/-- The fault that an error of the system stands for. -/
def faultOfError (error : IO.Error) : ReadFault :=
  match error with
  | .noFileOrDirectory _ _ _ => .noSuchFile
  | .inappropriateType _ code _ => if isCode 21 code then .isDirectory else .notDirectory
  | .invalidArgument _ code _ =>
      if isCode 36 code then .nameTooLong else .other (toString error)
  | _ => .other (toString error)

/-- The bytes of a file. -/
def readBytes (path : String) : IO (Except ReadFault ByteArray) := do
  try
    return .ok (← IO.FS.readBinFile path)
  catch error =>
    return .error (faultOfError error)

/-- All bytes of the standard input. -/
def readStandardInput : IO ByteArray := do
  (← IO.getStdin).readBinToEnd

/-- What a path leads to. -/
def readSource (path : String) : IO (Except ReadFault Source) := do
  if FileTree.namesInput path then return .ok .input
  return (← readBytes path).map Source.file

/-- Read what a command may read. -/
def gather (command : Command) : IO Surroundings := do
  let sources ← command.files.mapM fun path => do
    return (path, ← readSource path)
  let readsInput := command.readsInput || command.files.any FileTree.namesInput
  let input ← if readsInput then readStandardInput else pure ByteArray.empty
  return ⟨fun path => (sources.lookup path).getD (.error .noSuchFile), input⟩

/-- Match the batch of a measurement once and answer with the nanoseconds that
it took. -/
def measureBatch (bench : Bench) : IO Nat := do
  let start ← IO.monoNanosNow
  let _ ← IO.lazyPure fun _ => bench.matchesPerBatch
  return (← IO.monoNanosNow) - start

/-- Measure the batches of a measurement. -/
def measure (bench : Bench) : IO Timing := do
  for _ in [0:bench.warmups] do
    let _ ← measureBatch bench
  let start ← IO.monoNanosNow
  let samples ← (List.range bench.batches).mapM fun _ => measureBatch bench
  let stop ← IO.monoNanosNow
  return ⟨samples, stop - start, bench.queries.length * bench.batches⟩

/-- The times of a command that measures. -/
def timing? (surroundings : Surroundings) : Command → IO (Option Timing)
  | .bench lists uriFile iterations =>
      match Bench.prepare surroundings lists uriFile iterations with
      | (_, .ok bench) => return some (← measure bench)
      | (_, .error _) => return none
  | _ => return none

/-- Run the program.  Refused arguments are answered with how to call it. -/
def runProgram (args : List String) : IO UInt32 := do
  match Invocation.ofArgs? args with
  | none =>
      IO.eprint usage
      return 2
  | some invocation =>
      let surroundings ← gather invocation.command
      let result := invocation.command.run surroundings
      IO.print result.output
      if let some timing ← timing? surroundings invocation.command then
        IO.print timing.text
      IO.eprint (result.errorStream (some invocation.threshold))
      return UInt32.ofNat result.exitCode

end UrlFilter

def main (args : List String) : IO UInt32 := UrlFilter.runProgram args
