/-
Commands.

There are four commands: match URIs against lists, check lists, dump what lists
are compiled to, and measure matching.
-/
import UrlFilter.FilterList

namespace UrlFilter

/-- What to match, and how. -/
structure MatchOptions where
  lists : List String
  mode : ExclusionMode
  policy : Policy
  json : Bool
  uriFile : Option String
  uris : List String
  deriving DecidableEq, Repr

/-- What the program is asked to do. -/
inductive Command
  | matchUris (options : MatchOptions)
  | check (lists : List String)
  | dump (lists : List String) (json : Bool)
  | bench (lists : List String) (uriFile : String) (iterations : Nat)
  deriving DecidableEq, Repr

namespace Command

/-- The files that a command may read. -/
def files : Command → List String
  | matchUris options => options.lists ++ options.uriFile.toList.filter (· != "-")
  | check lists => lists
  | dump lists _ => lists
  | bench lists uriFile _ => lists ++ [uriFile].filter (· != "-")

/-- May a command read its standard input? -/
def readsInput : Command → Bool
  | matchUris options => options.uriFile = some "-"
  | check _ => false
  | dump _ _ => false
  | bench _ uriFile _ => uriFile = "-"

end Command

end UrlFilter
