/-
Reading pattern texts.

The reader takes the bytes of a pattern text from left to right and answers with
the pattern, or with the first fault.  It counts the instructions that the
pattern will need and stops when there is no room for another one.
-/
import UrlFilter.Pattern.Syntax
import UrlFilter.Program

namespace UrlFilter

/-- Why a text is no pattern. -/
inductive PatternFault
  /-- A byte that fits nowhere in a pattern, or not where it stands.  Behind a
  wildcard at the end of the text it is the terminator. -/
  | invalidByte (offset : Nat) (byte : UInt8)
  /-- The pattern needs more instructions than a program may have. -/
  | tooLong
  deriving DecidableEq, Repr

namespace Pattern

/-- The mark of an exception, which stands in front of its pattern. -/
def exceptionMark : List UInt8 := [Byte.commercialAt, Byte.commercialAt]

/-- The text without the mark of an exception, and the number of bytes taken. -/
def dropExceptionMark (text : List UInt8) : Nat × List UInt8 :=
  match exceptionMark.isPrefixOf? text with
  | some rest => (exceptionMark.length, rest)
  | none => (0, text)

/-- The longest anchor at the front of a text, and the text behind it. -/
def takeAnchor (text : List UInt8) : Anchor × List UInt8 :=
  match Anchor.host.bytes.isPrefixOf? text with
  | some rest => (.host, rest)
  | none =>
      match Anchor.start.bytes.isPrefixOf? text with
      | some rest => (.start, rest)
      | none => (.anywhere, text)

/-- Read the tokens of a text and whether the end anchor follows them.  At most
`room` instructions may be emitted, and `offset` is where the text stands in the
pattern. -/
def readTokens : (room offset : Nat) → List UInt8 →
    Except PatternFault (List Token × Bool)
  | _, _, [] => .ok ([], false)
  | 0, _, _ :: _ => .error .tooLong
  | room + 1, offset, byte :: rest =>
      if byte = Byte.star then
        match rest with
        | [] => .error (.invalidByte (offset + 1) terminator)
        | next :: rest =>
            match Atom.ofByte? next with
            | some atom =>
                (readTokens room (offset + 2) rest).map fun (tokens, tail) =>
                  (.seek atom :: tokens, tail)
            | none => .error (.invalidByte (offset + 1) next)
      else if byte = Byte.bar then
        if rest = [] then .ok ([], true) else .error (.invalidByte offset byte)
      else
        match Atom.ofByte? byte with
        | some atom =>
            (readTokens room (offset + 1) rest).map fun (tokens, tail) =>
              (.here atom :: tokens, tail)
        | none => .error (.invalidByte offset byte)

/-- Read a pattern text, with or without the mark of an exception. -/
def read (text : List UInt8) : Except PatternFault Pattern :=
  let (markSize, unmarked) := dropExceptionMark text
  let (anchor, rest) := takeAnchor unmarked
  let room := instructionLimit - 1 - anchor.instructions.length
  (readTokens room (markSize + anchor.bytes.length) rest).map fun (tokens, tail) =>
    ⟨anchor, tokens, tail⟩

/-- The instructions for a pattern text under the flags of its rule. -/
def compile (text : String) (flags : Flags) : Except PatternFault (List Instruction) :=
  (read (utf8 text)).map (instructions (flags.contains .matchCase))

end Pattern

end UrlFilter
