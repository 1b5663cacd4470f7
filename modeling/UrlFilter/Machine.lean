/-
The matching machine.

A run takes the instructions once from left to right and carries a cursor over
the bytes of a URI.  It never goes back: trying another start is up to the
caller.  Each instruction either moves the cursor or ends the run in failure.

A program can hold a cursor in a word only, and for a run that may start
anywhere there is the machine whose cursor is a word.  From the places where a
URI is matched the two machines do the same.
-/
import UrlFilter.Instruction

namespace UrlFilter

/-- Where an instruction takes the cursor, or nothing if it fails there.

A search stops in front of the byte that it looks for, and fails at the
terminator unless the terminator fits.  A scheme ends at the first byte that no
scheme contains, which has to be a colon; the colon and the slashes right after
it are stepped over. -/
def Instruction.move? (bytes : ByteArray) (cursor : Nat) (instruction : Instruction) :
    Option Nat :=
  match instruction.opcode with
  | .char =>
      if Operand.fits instruction.operand (byteAt bytes cursor) then some (cursor + 1)
      else none
  | .skipTo =>
      let stop := advance bytes
        (fun byte => !Operand.fits instruction.operand byte && byte != terminator) cursor
      if Operand.fits instruction.operand (byteAt bytes stop) then some stop else none
  | .skipScheme =>
      let stop := advance bytes isSchemeByte cursor
      if byteAt bytes stop = Byte.colon then
        some (advance bytes (· == Byte.slash) (stop + 1))
      else none
  | .accept => some cursor

/-- Run instructions from a cursor.  The run succeeds at the first accepting
instruction, or at the end of instructions that have none. -/
def run (bytes : ByteArray) : List Instruction → Nat → Bool
  | [], _ => true
  | instruction :: rest, cursor =>
      if instruction.opcode = .accept then true
      else
        match instruction.move? bytes cursor with
        | some next => run bytes rest next
        | none => false

/-- Run instructions with the cursor kept in a word of 64 bits.  Behind the greatest word comes
the word zero. -/
def runWord (bytes : ByteArray) : List Instruction → UInt64 → Bool
  | [], _ => true
  | instruction :: rest, cursor =>
      if instruction.opcode = .accept then true
      else
        match instruction.move? bytes cursor.toNat with
        | some next => runWord bytes rest (UInt64.ofNat next)
        | none => false

@[simp]
theorem run_nil (bytes : ByteArray) (cursor : Nat) : run bytes [] cursor = true := rfl

@[simp]
theorem run_accept (bytes : ByteArray) (rest : List Instruction) (cursor : Nat) :
    run bytes (Instruction.accept :: rest) cursor = true := by
  simp [run, Instruction.accept]

/-- An instruction that does not accept passes its cursor on. -/
theorem run_cons {bytes : ByteArray} {instruction : Instruction}
    {rest : List Instruction} {cursor : Nat} (h : instruction.opcode ≠ .accept) :
    run bytes (instruction :: rest) cursor =
      (instruction.move? bytes cursor).any (run bytes rest) := by
  rw [run, if_neg h]
  cases instruction.move? bytes cursor <;> rfl

/-- A comparison steps over the byte that fits. -/
theorem move?_char (bytes : ByteArray) (cursor : Nat) (operand : Int) :
    Instruction.move? bytes cursor ⟨.char, operand⟩ =
      if Operand.fits operand (byteAt bytes cursor) then some (cursor + 1) else none := rfl

end UrlFilter
