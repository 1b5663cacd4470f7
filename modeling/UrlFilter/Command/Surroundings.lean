/-
What a command reads.

A command reads files by path and its standard input.  Both are given to it as
values, so that what a command does is a function of what it is given.  A file
reads the same every time, and the standard input is used up when it is read.
-/

namespace UrlFilter

/-- Why a text could not be read. -/
inductive ReadFault
  | noSuchFile
  | notDirectory
  | isDirectory
  | nameTooLong
  /-- The bytes are no UTF-8. -/
  | notText
  /-- Any other reason, in the words of the system. -/
  | other (reason : String)
  deriving DecidableEq, Repr

/-- The text that reports a fault. -/
def ReadFault.message : ReadFault → String
  | noSuchFile => "No such file or directory (os error 2)"
  | notDirectory => "Not a directory (os error 20)"
  | isDirectory => "Is a directory (os error 21)"
  | nameTooLong => "File name too long (os error 36)"
  | notText => "stream did not contain valid UTF-8"
  | other reason => reason

/-- The text that some bytes encode. -/
def decodeText (bytes : ByteArray) : Except ReadFault String :=
  match String.fromUTF8? bytes with
  | some text => .ok text
  | none => .error .notText

/-- What a path leads to. -/
inductive Source
  | file (bytes : ByteArray)
  /-- The standard input, which can have a path too. -/
  | input

/-- What a command can read: what stands behind the paths, and what is left of its
standard input. -/
structure Surroundings where
  source : String → Except ReadFault Source
  input : ByteArray

namespace Surroundings

/-- The text of the standard input. -/
def readInput (surroundings : Surroundings) : Except ReadFault String :=
  decodeText surroundings.input

/-- The text that a path leads to. -/
def readFile (surroundings : Surroundings) (path : String) : Except ReadFault String :=
  match surroundings.source path with
  | .ok (.file bytes) => decodeText bytes
  | .ok .input => surroundings.readInput
  | .error fault => .error fault

/-- What can be read after a path was read. -/
def afterFile (surroundings : Surroundings) (path : String) : Surroundings :=
  match surroundings.source path with
  | .ok .input => { surroundings with input := ByteArray.empty }
  | _ => surroundings

/-- What can be read after some paths were read. -/
def afterFiles (surroundings : Surroundings) (paths : List String) : Surroundings :=
  paths.foldl afterFile surroundings

/-- A file does not use up anything. -/
theorem afterFile_of_file {surroundings : Surroundings} {path : String} {bytes : ByteArray}
    (h : surroundings.source path = .ok (.file bytes)) :
    surroundings.afterFile path = surroundings := by
  simp [afterFile, h]

end Surroundings

end UrlFilter
