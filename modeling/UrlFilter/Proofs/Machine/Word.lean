/-
Cursors in words.

A cursor that is kept in a word goes wrong only when a step leads over the greatest word.  There a
machine that checks its additions stops, and the one that does not goes on from zero.  A search
stops within the text or where it starts, and a comparison steps over one byte.  So a cursor gets
no further than to the end of the text or to its own start, and one place more for every
instruction.  Where the words have room for that, the machine with the word does what the machine
with the number does, and they always have room where a URI is matched.
-/
import UrlFilter.Program
import UrlFilter.Proofs.Machine.Extend
import UrlFilter.Proofs.Machine.Run
import Mathlib.Algebra.Group.Nat.Defs

namespace UrlFilter

/-- Have the words room for every place that a run from a start can come to? -/
def HasRoom (bytes : ByteArray) (instructions : List Instruction) (start : UInt64) : Prop :=
  max start.toNat bytes.size + instructions.length < 2 ^ 64

theorem advance_le {bytes : ByteArray} {skip : UInt8 → Bool} {cursor bound : Nat}
    (hsize : bytes.size ≤ bound) (hcursor : cursor ≤ bound) :
    advance bytes skip cursor ≤ bound := by
  have hle := advanceWithin_le bytes skip (bytes.size - cursor) cursor
  unfold advance
  omega

/-- What searches takes a cursor over no bound of the cursor and the text. -/
theorem Instruction.move?_le_of_ne {bytes : ByteArray} {cursor next bound : Nat}
    {instruction : Instruction} (hopcode : instruction.opcode ≠ .char)
    (hsize : bytes.size ≤ bound) (hcursor : cursor ≤ bound)
    (h : instruction.move? bytes cursor = some next) : next ≤ bound := by
  obtain ⟨opcode, operand⟩ := instruction
  cases opcode with
  | char => exact absurd rfl hopcode
  | skipTo =>
      dsimp only [move?] at h
      split at h
      · obtain rfl := Option.some.inj h
        exact advance_le hsize hcursor
      · contradiction
  | skipScheme =>
      dsimp only [move?] at h
      split at h
      · rename_i hcolon
        obtain rfl := Option.some.inj h
        have hinside : byteAt bytes (advance bytes isSchemeByte cursor) ≠ terminator :=
          hcolon ▸ by decide
        exact advance_le hsize (Nat.lt_of_lt_of_le (lt_size_of_byteAt_ne hinside) hsize)
      · contradiction
  | accept =>
      obtain rfl := Option.some.inj h
      exact hcursor

/-- One instruction takes a cursor at most one place over such a bound. -/
theorem Instruction.move?_le {bytes : ByteArray} {cursor next bound : Nat}
    {instruction : Instruction} (hsize : bytes.size ≤ bound) (hcursor : cursor ≤ bound)
    (h : instruction.move? bytes cursor = some next) : next ≤ bound + 1 := by
  by_cases hopcode : instruction.opcode = .char
  · obtain ⟨opcode, operand⟩ := instruction
    obtain rfl : opcode = .char := hopcode
    obtain ⟨-, rfl⟩ := move?_char_eq_some_iff.1 h
    exact Nat.succ_le_succ hcursor
  · exact Nat.le_succ_of_le (move?_le_of_ne hopcode hsize hcursor h)

theorem toNat_ofNat_of_lt {place : Nat} (h : place < 2 ^ 64) :
    (UInt64.ofNat place).toNat = place := by
  rw [UInt64.toNat_ofNat']
  omega

theorem runWord_eq_run_of_le {bytes : ByteArray} {instructions : List Instruction}
    {start : UInt64} {bound : Nat} (hsize : bytes.size ≤ bound) (hstart : start.toNat ≤ bound)
    (hroom : bound + instructions.length < 2 ^ 64) :
    runWord bytes instructions start = run bytes instructions start.toNat := by
  induction instructions generalizing start bound with
  | nil => rfl
  | cons instruction rest ih =>
      rw [runWord, run]
      split
      · rfl
      · cases hmove : instruction.move? bytes start.toNat with
        | none => rfl
        | some next =>
            have hnext : next ≤ bound + 1 := Instruction.move?_le hsize hstart hmove
            have hword : (UInt64.ofNat next).toNat = next := by
              rw [List.length_cons] at hroom
              exact toNat_ofNat_of_lt (by omega)
            have hrest : runWord bytes rest (UInt64.ofNat next) =
                run bytes rest (UInt64.ofNat next).toNat := by
              apply ih (Nat.le_succ_of_le hsize) (hword.symm ▸ hnext)
              rw [List.length_cons] at hroom
              omega
            dsimp only
            rw [hrest, hword]

/-- A run with room does the same with a word. -/
theorem runWord_eq_run {bytes : ByteArray} {instructions : List Instruction} {start : UInt64}
    (hroom : HasRoom bytes instructions start) :
    runWord bytes instructions start = run bytes instructions start.toNat :=
  runWord_eq_run_of_le (Nat.le_max_right _ _) (Nat.le_max_left _ _) hroom

namespace Program

variable {program : Program} {bytes : ByteArray}
  (hlength : program.instructions.length ≤ instructionLimit) (hsize : bytes.size < 2 ^ 63)
include hlength hsize

/-- Every run of a program over a URI has room. -/
theorem hasRoom_body {start : Nat} (hstart : start ≤ bytes.size) :
    HasRoom bytes program.body (UInt64.ofNat start) := by
  have hbody := program.length_body_le
  rw [instructionLimit] at hlength
  rw [HasRoom, toNat_ofNat_of_lt (by omega)]
  omega

/-- A program accepts what the machine with the word accepts from one of its starts. -/
theorem accepts_iff_runWord :
    program.accepts bytes = true ↔
      ∃ start < bytes.size, (program.isAnchored = true → start = 0) ∧
        runWord bytes program.body (UInt64.ofNat start) = true := by
  rw [accepts_iff]
  refine exists_congr fun start => and_congr_right fun hstart => and_congr_right fun _ => ?_
  have hword : (UInt64.ofNat start).toNat = start := toNat_ofNat_of_lt (by omega)
  rw [runWord_eq_run (hasRoom_body hlength hsize (Nat.le_of_lt hstart)), hword]

end Program

end UrlFilter
