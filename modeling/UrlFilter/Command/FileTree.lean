/-
Files held in memory.

A file tree is a list of files by the names that lead to them from the root.  A
path is followed step by step, from the root or from the working directory, and
each step but the last has to end in a directory.
-/
import UrlFilter.Command.Surroundings

namespace UrlFilter

/-- The parts of a path that lead somewhere: all but the empty ones and the dots
that stay where they are. -/
def pathSteps (path : String) : List String :=
  ((path.toList.splitOn '/').map String.ofList).filter fun part => part != "" && part != "."

/-- The last part of a path, or the empty text where that is no name. -/
def pathName (path : String) : String :=
  match (pathSteps path).getLast? with
  | some name => if name = ".." then "" else name
  | none => ""

/-- The greatest number of bytes in one part of a path. -/
def nameLimit : Nat := 255

/-- The number of bytes that a path has to stay below. -/
def pathLimit : Nat := 4096

/-- Files, and the standard input, by the names that lead to them from the root. -/
structure FileTree where
  files : List (List String × Source)

namespace FileTree

/-- Where the working directory is: among the temporary ones, under a name that
is not known.  A dot stands for it, since no step of a path is a dot. -/
def workplace : List String := ["tmp", "."]

/-- The files that are always there: one is empty, and the others are the standard
input. -/
def devices : List (List String × Source) :=
  [(["dev", "null"], .file ByteArray.empty), (["dev", "stdin"], .input),
   (["proc", "self", "fd", "0"], .input)]

/-- The places that stand for other places. -/
def links : List (List String × List String) :=
  [(["dev", "fd"], ["proc", "self", "fd"]), (["proc", "self", "cwd"], workplace),
   (["proc", "self", "root"], [])]

/-- The place that a place stands for. -/
def resolve (place : List String) : List String :=
  (links.lookup place).getD place

/-- The tree of the devices and of files with names in the working directory. -/
def ofFiles (files : List (String × ByteArray)) : FileTree where
  files := devices ++ files.map fun (name, bytes) =>
    (workplace ++ pathSteps name, Source.file bytes)

/-- What is in a place, if that is no directory. -/
def file? (tree : FileTree) (place : List String) : Option Source :=
  tree.files.lookup place

/-- Is a place a directory?  The working directory is one, and so is what leads to
it or to a file. -/
def isDirectory (tree : FileTree) (place : List String) : Bool :=
  place.isPrefixOf workplace ||
    tree.files.any fun (name, _) => place.isPrefixOf name && place != name

/-- Why nothing is found where a name is missing. -/
def missing (name : String) : ReadFault :=
  if nameLimit < name.utf8ByteSize then .nameTooLong else .noSuchFile

/-- Follow steps from a place that is a directory.  Above the root there is the root
again.  `closed` says that the path ends in a slash or a dot, which only a
directory allows. -/
def follow (tree : FileTree) (closed : Bool) :
    (place steps : List String) → Except ReadFault Source
  | _, [] => .error .isDirectory
  | place, ".." :: rest => follow tree closed place.dropLast rest
  | place, step :: rest =>
      let place := resolve (place ++ [step])
      match tree.file? place with
      | some source => if rest.isEmpty && !closed then .ok source else .error .notDirectory
      | none =>
          if tree.isDirectory place then follow tree closed place rest
          else .error (missing step)

/-- What a path leads to.  A path with a slash in front starts at the root, and any
other in the working directory. -/
def source (tree : FileTree) (path : String) : Except ReadFault Source :=
  let last := (path.toList.splitOn '/').getLastD []
  if path = "" then .error .noSuchFile
  else if pathLimit ≤ path.utf8ByteSize then .error .nameTooLong
  else
    let start := if path.toList.head? = some '/' then [] else workplace
    tree.follow (last.isEmpty || last = ['.']) start (pathSteps path)

/-- Does a path lead to the standard input from the root? -/
def namesInput (path : String) : Bool :=
  path.toList.head? = some '/' &&
    match (ofFiles []).source path with
    | .ok .input => true
    | _ => false

end FileTree

/-- The surroundings of a run with files in its working directory and bytes in its
standard input. -/
def Surroundings.ofFiles (files : List (String × ByteArray)) (input : ByteArray) :
    Surroundings where
  source := (FileTree.ofFiles files).source
  input := input

end UrlFilter
