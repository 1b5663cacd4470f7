/-
Byte classes.

Three classes of bytes drive patterns and matching: the bytes that a pattern may
contain as themselves, the separators of a URL, and the bytes of a URL scheme.
The terminator is a separator and belongs to neither of the other two.
-/
import UrlFilter.Text.Bytes

namespace UrlFilter

namespace Byte

/-- The byte of `*`, the wildcard of patterns. -/
abbrev star : UInt8 := 0x2a

/-- The byte of `^`, which stands for a separator in patterns. -/
abbrev caret : UInt8 := 0x5e

/-- The byte of `|`, which anchors patterns. -/
abbrev bar : UInt8 := 0x7c

/-- The byte of `@`, which marks exceptions when doubled. -/
abbrev commercialAt : UInt8 := 0x40

/-- The byte of `:`, which ends a scheme. -/
abbrev colon : UInt8 := 0x3a

/-- The byte of `/`. -/
abbrev slash : UInt8 := 0x2f

end Byte

/-- Is the byte an ASCII letter or digit? -/
def isAlphanumeric (byte : UInt8) : Bool :=
  (0x30 ≤ byte && byte ≤ 0x39) || (0x41 ≤ byte && byte ≤ 0x5a) ||
    (0x61 ≤ byte && byte ≤ 0x7a)

/-- The graphic ASCII bytes that no URL contains as themselves: the double
quote, the angle brackets, the backslash, the caret, the grave accent, the
braces and the bar. -/
def nonUrlBytes : List UInt8 :=
  [0x22, 0x3c, 0x3e, 0x5c, 0x5e, 0x60, 0x7b, 0x7c, 0x7d]

/-- May the byte stand in a pattern as itself?  The wildcard is such a byte. -/
def isUrlByte (byte : UInt8) : Bool :=
  0x21 ≤ byte && byte ≤ 0x7e && !nonUrlBytes.contains byte

/-- Does the byte separate the parts of a URL?  All of ASCII does but letters,
digits and the four bytes of `_`, `-`, `.` and `%`. -/
def isSeparator (byte : UInt8) : Bool :=
  byte < 0x80 && !(isAlphanumeric byte || [0x5f, 0x2d, 0x2e, 0x25].contains byte)

/-- May the byte stand in a URL scheme?  Letters, digits, `+`, `-` and `.` may. -/
def isSchemeByte (byte : UInt8) : Bool :=
  isAlphanumeric byte || [0x2b, 0x2d, 0x2e].contains byte

/-- The three classes by name. -/
inductive ByteClass
  | url
  | separator
  | scheme
  deriving DecidableEq, Repr

/-- Membership in a class. -/
def ByteClass.contains : ByteClass → UInt8 → Bool
  | url => isUrlByte
  | separator => isSeparator
  | scheme => isSchemeByte

/-- The membership of all 256 bytes in ascending order. -/
def ByteClass.table (byteClass : ByteClass) : List Bool :=
  (List.range 256).map fun value => byteClass.contains (UInt8.ofNat value)

theorem isSeparator_terminator : isSeparator terminator = true := by decide

theorem not_isSchemeByte_terminator : isSchemeByte terminator = false := by decide

theorem not_isUrlByte_terminator : isUrlByte terminator = false := by decide

/-- A byte that may stand in a pattern is ASCII and not the terminator. -/
theorem isUrlByte_bounds {byte : UInt8} (h : isUrlByte byte = true) :
    0x21 ≤ byte ∧ byte ≤ 0x7e := by
  simp only [isUrlByte, Bool.and_eq_true, decide_eq_true_eq] at h
  exact h.1

end UrlFilter
