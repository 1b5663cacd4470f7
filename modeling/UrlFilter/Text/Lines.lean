/-
Lines of a text.

A line ends at a line feed, and one carriage return in front of the line feed
belongs to the line ending.  What follows the last line feed is a line only if
it is not empty, and keeps its carriage return.
-/

namespace UrlFilter

/-- The line without a carriage return at its end, of which one is taken. -/
def dropCarriageReturn (line : List Char) : List Char :=
  if line.getLast? = some '\r' then line.dropLast else line

/-- The lines of a text, in order. -/
def lines (text : List Char) : List (List Char) :=
  let pieces := text.splitOn '\n'
  let rest := pieces.getLastD []
  pieces.dropLast.map dropCarriageReturn ++ if rest = [] then [] else [rest]

example : lines [] = [] := by decide
example : lines ['\n'] = [[]] := by decide
example : lines ['a', '\r', '\r', '\n', 'b', '\r'] = [['a', '\r'], ['b', '\r']] := by
  decide

end UrlFilter
