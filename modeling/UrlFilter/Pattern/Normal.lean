/-
Normal form of pattern texts.

A pattern matches anywhere in a URI unless it is anchored, so wildcards at its
edges say nothing, and neither does an anchor at the end of a pattern whose last
byte already fits the end.  Normalizing removes them, one edge after the other
and each once.
-/

namespace UrlFilter

namespace Pattern

/-- The text without `front` at its start, if it starts so. -/
def stripFront (front text : List Char) : List Char :=
  (front.isPrefixOf? text).getD text

/-- The text without `back` at its end, if it ends so. -/
def stripBack (back text : List Char) : List Char :=
  (back.isSuffixOf? text).getD text

/-- The text with every run of wildcards made one wildcard. -/
def collapseStars (text : List Char) : List Char :=
  text.foldr (fun c rest => if c = '*' ∧ rest.head? = some '*' then rest else c :: rest) []

/-- The text with a separator in front of the end anchor left to stand alone. -/
def dropTailAfterSeparator (text : List Char) : List Char :=
  match ['^', '|'].isSuffixOf? text with
  | some front => front ++ ['^']
  | none => text

/-- The steps of `normalize`, on characters. -/
def normalizeChars (text : List Char) : List Char :=
  dropTailAfterSeparator <|
    stripFront ['|', '*'] <|
      stripBack ['*', '|'] <|
        stripFront ['*'] <|
          stripBack ['*'] <|
            collapseStars text

/-- The normal form of a pattern text: runs of wildcards are collapsed, then a
wildcard at the end, one at the start, one before the end anchor and one after
the start anchor are removed with their anchor, and last an end anchor behind a
separator is removed. -/
def normalize (text : String) : String :=
  String.ofList (normalizeChars text.toList)

example : normalizeChars ['*', '*', 'a', '*', '*', 'b', '*', '|'] =
    ['a', '*', 'b'] := by decide

example : normalizeChars ['|', '*', 'a', '^', '|'] = ['a', '^'] := by decide

end Pattern

end UrlFilter
