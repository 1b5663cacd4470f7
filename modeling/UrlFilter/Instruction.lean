/-
Instructions of the matching machine.

An instruction is an opcode with an operand.  An operand is a byte value from 0
to 255 or one of the negative marks, so a mark never equals a byte.  The tail
mark is the terminator's own value: comparing with it asks for the end.
-/
import UrlFilter.CharClass

namespace UrlFilter

/-- What an instruction does. -/
inductive Opcode
  /-- Compare the byte under the cursor and step over it. -/
  | char
  /-- Move the cursor to the nearest byte that fits the operand. -/
  | skipTo
  /-- Move the cursor over a scheme, its colon and the slashes after it. -/
  | skipScheme
  /-- Accept. -/
  | accept
  deriving DecidableEq, Repr

/-- The word that stands for an opcode in listings. -/
def Opcode.mnemonic : Opcode → String
  | char => "char"
  | skipTo => "skip_to"
  | skipScheme => "skip_scheme"
  | accept => "match"

/-- The number of an opcode. -/
def Opcode.code : Opcode → Nat
  | char => 0
  | skipTo => 1
  | skipScheme => 2
  | accept => 3

/-- The opcode with a number, if there is one. -/
def Opcode.ofCode? : Nat → Option Opcode
  | 0 => some char
  | 1 => some skipTo
  | 2 => some skipScheme
  | 3 => some accept
  | _ => none

namespace Operand

/-- The operand of a byte is its value. -/
def ofByte (byte : UInt8) : Int := byte.toNat

/-- The end of the URI, which shares the value of the terminator. -/
def tail : Int := 0

/-- The start of the URI. -/
def head : Int := -1

/-- Any separator. -/
def separator : Int := -2

/-- Does a byte fit an operand?  Any separator fits the separator mark, and
every other operand asks for the byte of its own value. -/
def fits (operand : Int) (byte : UInt8) : Bool :=
  if operand = separator then isSeparator byte else operand = ofByte byte

theorem fits_separator (byte : UInt8) : fits separator byte = isSeparator byte := by
  simp [fits]

theorem ofByte_ne_separator (byte : UInt8) : ofByte byte ≠ separator := by
  simp only [ofByte, separator]
  omega

theorem fits_ofByte (expected byte : UInt8) :
    fits (ofByte expected) byte = decide (expected = byte) := by
  rw [fits, if_neg (ofByte_ne_separator expected)]
  refine decide_eq_decide.2 ⟨fun h => ?_, fun h => by rw [h]⟩
  exact UInt8.toNat_inj.1 (Int.ofNat.inj h)

end Operand

/-- An opcode with its operand.  The operand of an opcode that takes none is
carried along and has no effect. -/
structure Instruction where
  opcode : Opcode
  operand : Int
  deriving DecidableEq, Repr

namespace Instruction

/-- The anchor at the start of the URI. -/
def head : Instruction := ⟨.char, Operand.head⟩

/-- The anchor at the end of the URI. -/
def tail : Instruction := ⟨.char, Operand.tail⟩

/-- Step over the scheme of the URI. -/
def skipScheme : Instruction := ⟨.skipScheme, 0⟩

/-- Accept. -/
def accept : Instruction := ⟨.accept, 0⟩

end Instruction

end UrlFilter
