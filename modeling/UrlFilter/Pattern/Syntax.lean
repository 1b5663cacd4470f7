/-
Patterns.

A pattern is an anchor, a sequence of tokens and possibly the end anchor.  A
token asks for a byte right under the cursor or searches for the nearest one.
Every pattern has a text and a list of instructions, and both are put together part
by part.
-/
import UrlFilter.Instruction

namespace UrlFilter

/-- Where a match may start. -/
inductive Anchor
  /-- At any byte of the URI. -/
  | anywhere
  /-- At the start of the URI. -/
  | start
  /-- Right after the scheme of the URI. -/
  | host
  deriving DecidableEq, Repr

/-- What a token asks of one byte. -/
inductive Atom
  /-- Some separator, or the end of the URI. -/
  | separator
  /-- One byte. -/
  | literal (byte : UInt8)
  deriving DecidableEq, Repr

/-- One step of a pattern. -/
inductive Token
  /-- The byte under the cursor fits. -/
  | here (atom : Atom)
  /-- The nearest byte that fits, which is left for the next token to step
  over. -/
  | seek (atom : Atom)
  deriving DecidableEq, Repr

/-- An anchored sequence of tokens.  With `tail` the URI has to end after the
last token. -/
structure Pattern where
  anchor : Anchor
  tokens : List Token
  tail : Bool
  deriving DecidableEq, Repr

/-- The text of an anchor. -/
def Anchor.bytes : Anchor → List UInt8
  | anywhere => []
  | start => [Byte.bar]
  | host => [Byte.bar, Byte.bar]

/-- The instructions of an anchor. -/
def Anchor.instructions : Anchor → List Instruction
  | anywhere => []
  | start => [Instruction.head]
  | host => [Instruction.head, Instruction.skipScheme]

/-- The atom that a byte stands for, if it stands for one. -/
def Atom.ofByte? (byte : UInt8) : Option Atom :=
  if byte = Byte.caret then some separator
  else if isUrlByte byte then some (literal byte)
  else none

/-- The byte that an atom is written as. -/
def Atom.byte : Atom → UInt8
  | separator => Byte.caret
  | literal byte => byte

/-- The operand for an atom.  Without `matchCase` a literal capital is looked
for as a small letter. -/
def Atom.operand (matchCase : Bool) : Atom → Int
  | separator => Operand.separator
  | literal byte => Operand.ofByte (if matchCase then byte else lowerByte byte)

/-- The text of a token. -/
def Token.bytes : Token → List UInt8
  | here atom => [atom.byte]
  | seek atom => [Byte.star, atom.byte]

/-- The instruction of a token. -/
def Token.instruction (matchCase : Bool) : Token → Instruction
  | here atom => ⟨.char, atom.operand matchCase⟩
  | seek atom => ⟨.skipTo, atom.operand matchCase⟩

namespace Pattern

/-- The text of a pattern. -/
def bytes (pattern : Pattern) : List UInt8 :=
  pattern.anchor.bytes ++ pattern.tokens.flatMap Token.bytes ++
    if pattern.tail then [Byte.bar] else []

/-- The instructions of a pattern: those of its anchor, one for each token, one
for the end anchor, and acceptance. -/
def instructions (matchCase : Bool) (pattern : Pattern) : List Instruction :=
  pattern.anchor.instructions ++ pattern.tokens.map (Token.instruction matchCase) ++
    (if pattern.tail then [Instruction.tail] else []) ++ [Instruction.accept]

end Pattern

/-- An atom is written as the byte that it was read from. -/
theorem Atom.byte_of_ofByte? {byte : UInt8} {atom : Atom}
    (h : Atom.ofByte? byte = some atom) : atom.byte = byte := by
  unfold Atom.ofByte? at h
  split at h
  · simp_all [← Option.some.inj h, Atom.byte]
  · split at h
    · simp [← Option.some.inj h, Atom.byte]
    · simp at h

end UrlFilter
