/-
Lines of a filter list.

A line is blank, a comment, a rule for hiding elements, or a URL filter.
-/
import UrlFilter.Filter.Basic

namespace UrlFilter

/-- What a line of a filter list is. -/
inductive Line
  | blank
  | comment
  | elementHiding
  | filter (filter : Filter)
  deriving DecidableEq, Repr

namespace Line

/-- Does a text contain one of the two marks of a rule for hiding elements? -/
def marksHiding (text : List Char) : Bool :=
  occurs ['#', '#'] text || occurs ['#', '@', '#'] text

/-- Classify a line as it stands: nothing is trimmed, and a comment is one
whatever it contains. -/
def ofText (text : String) : Line :=
  match text.toList with
  | [] => blank
  | '!' :: _ => comment
  | characters => if marksHiding characters then elementHiding else filter (Filter.ofText text)

end Line

end UrlFilter
