/-
Loading lists and reading URIs for a command.

A command loads its lists in order into one set of rules, and the first list that cannot
be read or compiled ends the loading.  The events of the lists before it, and its own up
to the line that ends it, have been told by then.
-/
import UrlFilter.Command.FileTree
import UrlFilter.Command.Error
import UrlFilter.RuleSet

namespace UrlFilter

/-- The counts of a list that was loaded from a file. -/
structure LoadedList where
  path : String
  stats : ListStats
  deriving DecidableEq, Repr

/-- The event that tells that a list was loaded. -/
def LoadedList.event (list : LoadedList) : Event :=
  .listLoaded (pathName list.path) list.stats.lines list.stats.rules list.stats.errors.length

/-- Load the list in a file into a set, and tell what loading it tells. -/
def loadFile (surroundings : Surroundings) (policy : Policy) (set : RuleSet) (path : String) :
    List Event × Except CommandError (RuleSet × LoadedList) :=
  match surroundings.readFile path with
  | .error fault => ([], .error (.unreadableFile path fault))
  | .ok text =>
      let events := FilterList.events policy text
      match set.load policy text with
      | (_, .error error) => (events, .error (.invalidList path error))
      | (set, .ok stats) =>
          let list := LoadedList.mk path stats
          (events ++ [list.event], .ok (set, list))

/-- Load the lists in some files into a set, one after the other. -/
def loadEach (surroundings : Surroundings) (policy : Policy) (set : RuleSet) :
    List String → List Event × Except CommandError (RuleSet × List LoadedList)
  | [] => ([], .ok (set, []))
  | path :: rest =>
      match loadFile surroundings policy set path with
      | (events, .error error) => (events, .error error)
      | (events, .ok (set, list)) =>
          let (later, result) := loadEach (surroundings.afterFile path) policy set rest
          (events ++ later, result.map fun (set, lists) => (set, list :: lists))

/-- Load the lists in the files of a command into a set.  There has to be one. -/
def loadFiles (surroundings : Surroundings) (policy : Policy) (set : RuleSet)
    (paths : List String) : List Event × Except CommandError (RuleSet × List LoadedList) :=
  if paths.isEmpty then ([], .error .noLists) else loadEach surroundings policy set paths

/-- The URIs of a text: its lines, trimmed, without the blank ones. -/
def urisOfText (text : String) : List String :=
  (FilterList.lines text).filter fun line => line != ""

/-- The text that the URIs stand in, where a lone hyphen names the standard
input. -/
def readUriText (surroundings : Surroundings) (path : String) : Except CommandError String :=
  if path = "-" then surroundings.readInput.mapError CommandError.unreadableInput
  else (surroundings.readFile path).mapError (CommandError.unreadableFile path)

/-- The URIs of a file, if there is one, and the given ones after them.  The
given ones are taken as they are. -/
def readUris (surroundings : Surroundings) (path? : Option String) (given : List String) :
    Except CommandError (List String) :=
  match path? with
  | none => .ok given
  | some path => (readUriText surroundings path).map fun text => urisOfText text ++ given

end UrlFilter
