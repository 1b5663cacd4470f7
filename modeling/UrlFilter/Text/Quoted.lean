/-
Quoted texts.

A quoted text stands between double quotes.  Inside, the quote, the backslash
and the characters without a printable form are escaped, and all others stand
for themselves.
-/
import UrlFilter.Text.ByteEscape
import UrlFilter.Text.Unprintable

namespace UrlFilter

/-- One character inside a quoted text: four control characters by letter or
digit, the double quote and the backslash behind a backslash, an unprintable
character as `\u` with its code point in braces, in hexadecimal. -/
def quoteChar (c : Char) : List Char :=
  if c = '\x00' then ['\\', '0']
  else if c = '\t' then ['\\', 't']
  else if c = '\r' then ['\\', 'r']
  else if c = '\n' then ['\\', 'n']
  else if c = '\x22' ∨ c = '\\' then ['\\', c]
  else if isUnprintable c then
    ['\\', 'u', '\x7b'] ++ Nat.toDigits 16 c.toNat ++ ['\x7d']
  else [c]

/-- The text between double quotes. -/
def quoted (text : String) : String :=
  String.ofList ('\x22' :: text.toList.flatMap quoteChar ++ ['\x22'])

end UrlFilter
