/-
JSON texts.

A report is a JSON value whose members keep the order in which they were given.
Its text has one member or element to a line, two spaces deeper than the bracket
around it.
-/
import UrlFilter.Text.ByteEscape

namespace UrlFilter

/-- The JSON values that reports are made of. -/
inductive Json
  | number (value : Nat)
  | text (value : String)
  | array (elements : List Json)
  | object (members : List (String × Json))
  deriving Repr

/-- The text of a JSON value, or why it has none. -/
abbrev Serializer := Json → Except String String

namespace Json

/-- One character inside a JSON string.  The two characters that end or escape
it and the control characters are escaped, the latter by letter where there is
one. -/
def escapeChar (c : Char) : List Char :=
  if c = '\x22' then ['\\', '\x22']
  else if c = '\\' then ['\\', '\\']
  else if c = '\x08' then ['\\', 'b']
  else if c = '\t' then ['\\', 't']
  else if c = '\n' then ['\\', 'n']
  else if c = '\x0c' then ['\\', 'f']
  else if c = '\r' then ['\\', 'r']
  else if c.toNat < 0x20 then
    ['\\', 'u', '0', '0', hexDigit (c.toNat / 16), hexDigit (c.toNat % 16)]
  else [c]

/-- A text as a JSON string. -/
def string (text : String) : String :=
  String.ofList ('\x22' :: text.toList.flatMap escapeChar ++ ['\x22'])

/-- The start of a line at a depth. -/
def indentation (depth : Nat) : String :=
  String.ofList (List.replicate (2 * depth) ' ')

/-- Lines between two brackets, with a comma behind each but the last.  Without
lines the brackets stand together. -/
def enclose (opening closing : String) (depth : Nat) (lines : List String) : String :=
  if lines.isEmpty then opening ++ closing
  else
    opening ++ "\n" ++
      String.intercalate ",\n" (lines.map fun line => indentation (depth + 1) ++ line) ++
      "\n" ++ indentation depth ++ closing

mutual

/-- The text of a value whose first line stands at a depth. -/
def pretty (depth : Nat) : Json → String
  | number value => toString value
  | text value => string value
  | array elements => enclose "[" "]" depth (prettyElements (depth + 1) elements)
  | object members => enclose "\x7b" "\x7d" depth (prettyMembers (depth + 1) members)

/-- The texts of the elements of an array. -/
def prettyElements (depth : Nat) : List Json → List String
  | [] => []
  | element :: rest => pretty depth element :: prettyElements depth rest

/-- The texts of the members of an object, with their names. -/
def prettyMembers (depth : Nat) : List (String × Json) → List String
  | [] => []
  | (name, value) :: rest =>
      (string name ++ ": " ++ pretty depth value) :: prettyMembers depth rest

end

end Json

end UrlFilter
