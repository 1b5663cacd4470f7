/-
Printable names of bytes.

Every byte has a name in printable ASCII: a printable byte is its own name, and
the others are escaped with a backslash.
-/

namespace UrlFilter

/-- The lower-case hexadecimal digit of a number below sixteen. -/
def hexDigit (value : Nat) : Char :=
  Nat.digitChar value

/-- The name of a byte: printable ASCII as it is, but the two quotes and the
backslash behind a backslash; `\t`, `\r` and `\n` by letter; every other byte
as `\x` and two hexadecimal digits. -/
def escapeByte (byte : UInt8) : List Char :=
  if byte = 0x09 then ['\\', 't']
  else if byte = 0x0a then ['\\', 'n']
  else if byte = 0x0d then ['\\', 'r']
  else if byte = 0x22 ∨ byte = 0x27 ∨ byte = 0x5c then ['\\', Char.ofUInt8 byte]
  else if 0x20 ≤ byte ∧ byte ≤ 0x7e then [Char.ofUInt8 byte]
  else ['\\', 'x', hexDigit (byte.toNat / 16), hexDigit (byte.toNat % 16)]

end UrlFilter
