/-
Runs over longer texts.

What stands in front of the cursor has no influence on a run, so bytes put in front of a text
shift its runs and change nothing else.  Bytes put behind a text change what is read at its
end, so they leave alone the runs that read within the text only.  Those are the runs whose
instructions all ask for a byte other than the terminator.
-/
import UrlFilter.Proofs.Machine.Move

namespace UrlFilter

section Front

variable (front bytes : ByteArray)

theorem byteAt_append_left (cursor : Nat) :
    byteAt (front ++ bytes) (front.size + cursor) = byteAt bytes cursor := by
  by_cases hlt : cursor < bytes.size
  · have hlonger : front.size + cursor < (front ++ bytes).size := by
      rw [ByteArray.size_append]
      omega
    rw [byteAt_of_lt hlonger, byteAt_of_lt hlt,
      ByteArray.getElem_append_right (Nat.le_add_right _ _)]
    simp only [Nat.add_sub_cancel_left]
  · have hle : bytes.size ≤ cursor := Nat.le_of_not_lt hlt
    rw [byteAt_of_size_le hle, byteAt_of_size_le]
    rw [ByteArray.size_append]
    omega

theorem advanceWithin_append_left (skip : UInt8 → Bool) (room cursor : Nat) :
    advanceWithin (front ++ bytes) skip room (front.size + cursor) =
      front.size + advanceWithin bytes skip room cursor := by
  induction room generalizing cursor with
  | zero => rfl
  | succ room ih =>
      rw [advanceWithin, advanceWithin, byteAt_append_left]
      by_cases hskip : skip (byteAt bytes cursor) = true
      · rw [if_pos hskip, if_pos hskip, Nat.add_assoc, ih]
      · rw [if_neg hskip, if_neg hskip]

theorem advance_append_left (skip : UInt8 → Bool) (cursor : Nat) :
    advance (front ++ bytes) skip (front.size + cursor) =
      front.size + advance bytes skip cursor := by
  have hroom : (front ++ bytes).size - (front.size + cursor) = bytes.size - cursor := by
    rw [ByteArray.size_append]
    omega
  rw [advance, hroom, advanceWithin_append_left]
  rfl

/-- An instruction moves as it does without the bytes in front. -/
theorem Instruction.move?_append_left (cursor : Nat) (instruction : Instruction) :
    instruction.move? (front ++ bytes) (front.size + cursor) =
      (instruction.move? bytes cursor).map (front.size + ·) := by
  obtain ⟨opcode, operand⟩ := instruction
  cases opcode with
  | char =>
      rw [move?_char, move?_char, byteAt_append_left]
      split <;> rfl
  | skipTo =>
      simp only [move?, advance_append_left, byteAt_append_left]
      split <;> rfl
  | skipScheme =>
      simp only [move?, advance_append_left, byteAt_append_left]
      split
      · rw [Nat.add_assoc, advance_append_left]
        rfl
      · rfl
  | accept => rfl

/-- So a run goes as it does without them. -/
theorem run_append_left (instructions : List Instruction) (cursor : Nat) :
    run (front ++ bytes) instructions (front.size + cursor) =
      run bytes instructions cursor := by
  induction instructions generalizing cursor with
  | nil => rfl
  | cons instruction instructions ih =>
      by_cases haccept : instruction.opcode = .accept
      · rw [run, run, if_pos haccept, if_pos haccept]
      · rw [run_cons haccept, run_cons haccept, Instruction.move?_append_left]
        cases instruction.move? bytes cursor with
        | none => rfl
        | some next => exact ih next

end Front

theorem byteAt_append_right (behind : ByteArray) {bytes : ByteArray} {cursor : Nat}
    (h : cursor < bytes.size) : byteAt (bytes ++ behind) cursor = byteAt bytes cursor := by
  have hlonger : cursor < (bytes ++ behind).size := by
    rw [ByteArray.size_append]
    omega
  rw [byteAt_of_lt hlonger, byteAt_of_lt h, ByteArray.getElem_append_left h]

/-- A byte that is no terminator is read within the text. -/
theorem lt_size_of_byteAt_ne {bytes : ByteArray} {cursor : Nat}
    (h : byteAt bytes cursor ≠ terminator) : cursor < bytes.size := by
  apply Nat.lt_of_not_le
  intro hle
  exact h (byteAt_of_size_le hle)

namespace Instruction

/-- Does the instruction look for a byte, one that is no terminator? -/
structure AsksForByte (instruction : Instruction) : Prop where
  looks : instruction.opcode = .char ∨ instruction.opcode = .skipTo
  operand_eq : ∃ byte, byte ≠ terminator ∧ instruction.operand = Operand.ofByte byte

theorem AsksForByte.opcode_ne_accept {instruction : Instruction}
    (h : instruction.AsksForByte) : instruction.opcode ≠ .accept := by
  rcases h.looks with hopcode | hopcode
  · rw [hopcode]
    exact Opcode.noConfusion
  · rw [hopcode]
    exact Opcode.noConfusion

theorem AsksForByte.byteAt_ne {instruction : Instruction} (h : instruction.AsksForByte)
    {bytes : ByteArray} {place : Nat}
    (hfits : Operand.fits instruction.operand (byteAt bytes place) = true) :
    byteAt bytes place ≠ terminator := by
  obtain ⟨byte, hbyte, hoperand⟩ := h.operand_eq
  rw [hoperand, Operand.fits_ofByte, decide_eq_true_eq] at hfits
  rwa [← hfits]

/-- Such an instruction finds its byte within the text, and finds the same one if the text goes
on. -/
theorem AsksForByte.move?_append_right {instruction : Instruction}
    (h : instruction.AsksForByte) {bytes : ByteArray} {cursor next : Nat}
    (hmove : instruction.move? bytes cursor = some next) :
    cursor < bytes.size ∧
      ∀ behind, instruction.move? (bytes ++ behind) cursor = some next := by
  have hwithin : ∀ place, Operand.fits instruction.operand (byteAt bytes place) = true →
      place < bytes.size :=
    fun place hfits => lt_size_of_byteAt_ne (h.byteAt_ne hfits)
  obtain ⟨opcode, operand⟩ := instruction
  rcases h.looks with rfl | rfl
  · obtain ⟨hfits, hnext⟩ := move?_char_eq_some_iff.1 hmove
    have hlt := hwithin _ hfits
    refine ⟨hlt, fun behind => move?_char_eq_some_iff.2 ⟨?_, hnext⟩⟩
    rwa [byteAt_append_right behind hlt]
  · obtain ⟨hle, hfits, hskipped⟩ := move?_skipTo_eq_some_iff.1 hmove
    have hlt := hwithin _ hfits
    refine ⟨Nat.lt_of_le_of_lt hle hlt, fun behind =>
      move?_skipTo_eq_some_iff.2 ⟨hle, ?_, fun place hfrom hto => ?_⟩⟩
    · rwa [byteAt_append_right behind hlt]
    · rw [byteAt_append_right behind (Nat.lt_trans hto hlt)]
      exact hskipped place hfrom hto

end Instruction

/-- A run that looks for bytes and then accepts succeeds as well if the text goes on. -/
theorem run_append_right {instructions : List Instruction}
    (hasks : ∀ instruction ∈ instructions, instruction.AsksForByte) {bytes : ByteArray}
    {cursor : Nat}
    (hrun : run bytes (instructions ++ [Instruction.accept]) cursor = true)
    (behind : ByteArray) :
    run (bytes ++ behind) (instructions ++ [Instruction.accept]) cursor = true := by
  induction instructions generalizing cursor with
  | nil => exact run_accept _ _ _
  | cons instruction instructions ih =>
      have hfirst := hasks instruction List.mem_cons_self
      rw [List.cons_append, run_cons hfirst.opcode_ne_accept, Option.any_eq_true] at hrun ⊢
      obtain ⟨next, hmove, hrest⟩ := hrun
      exact ⟨next, (hfirst.move?_append_right hmove).2 behind,
        ih (fun other hother => hasks other (List.mem_cons_of_mem _ hother)) hrest⟩

end UrlFilter
