/-
Runs over what is left of a text.

A run reads nothing in front of its start, so it goes as it would over the bytes from its start
on.  Behind the end of a text no bytes are left, and every place is like the first one.  With the
cursor in a word this needs room: behind the greatest word comes the front of the text.  The
places at which a program is tried are those that leave some byte, so trying it at all of them
is the same as trying it at the first byte of every end of the text that is not empty.
-/
import UrlFilter.Proofs.Machine.Word

namespace UrlFilter

/-- Is a text what is left of a longer one, or all of it? -/
def IsRestOf (rest bytes : ByteArray) : Prop :=
  ∃ front, front ++ rest = bytes

section Empty

theorem byteAt_empty (cursor : Nat) : byteAt ByteArray.empty cursor = terminator :=
  byteAt_of_size_le (Nat.zero_le cursor)

theorem advance_empty (skip : UInt8 → Bool) (cursor : Nat) :
    advance ByteArray.empty skip cursor = cursor := by
  rw [advance, ByteArray.size_empty, Nat.zero_sub]
  rfl

/-- Without bytes an instruction moves by the same distance from everywhere. -/
theorem Instruction.move?_empty (cursor : Nat) (instruction : Instruction) :
    instruction.move? ByteArray.empty cursor =
      (instruction.move? ByteArray.empty 0).map (cursor + ·) := by
  obtain ⟨opcode, operand⟩ := instruction
  cases opcode with
  | char =>
      rw [move?_char, move?_char, byteAt_empty, byteAt_empty]
      split <;> rfl
  | skipTo =>
      simp only [move?, advance_empty, byteAt_empty]
      split <;> rfl
  | skipScheme =>
      have hcolon : terminator ≠ Byte.colon := by decide
      simp only [move?, byteAt_empty, if_neg hcolon]
      rfl
  | accept => rfl

/-- So a run goes in the same way from everywhere. -/
theorem run_empty (instructions : List Instruction) (cursor : Nat) :
    run ByteArray.empty instructions cursor = run ByteArray.empty instructions 0 := by
  induction instructions generalizing cursor with
  | nil => rfl
  | cons instruction rest ih =>
      by_cases haccept : instruction.opcode = .accept
      · rw [run, run, if_pos haccept, if_pos haccept]
      · rw [run_cons haccept, run_cons haccept, Instruction.move?_empty]
        cases instruction.move? ByteArray.empty 0 with
        | none => rfl
        | some next => exact (ih (cursor + next)).trans (ih next).symm

end Empty

/-- A place within a text, or at its end, divides it. -/
theorem extract_append_rest {bytes : ByteArray} {start : Nat} (h : start ≤ bytes.size) :
    bytes.extract 0 start ++ bytes.extract start bytes.size = bytes := by
  rw [← ByteArray.extract_eq_extract_append_extract start (Nat.zero_le _) h,
    ByteArray.extract_zero_size]

/-- A run goes as it does over the bytes from its start on. -/
theorem run_eq_run_rest (bytes : ByteArray) (instructions : List Instruction) (start : Nat) :
    run bytes instructions start =
      run (bytes.extract start bytes.size) instructions 0 := by
  by_cases hle : start ≤ bytes.size
  · have hfront : (bytes.extract 0 start).size = start := by
      rw [ByteArray.size_extract]
      omega
    have hrun := run_append_left (bytes.extract 0 start) (bytes.extract start bytes.size)
      instructions 0
    rwa [extract_append_rest hle, hfront] at hrun
  · have hbeyond : bytes.size ≤ start := Nat.le_of_not_le hle
    have hempty : bytes.extract start bytes.size = ByteArray.empty := by
      rw [ByteArray.extract_eq_empty_iff]
      omega
    have hrun := run_append_left bytes ByteArray.empty instructions (start - bytes.size)
    rw [ByteArray.append_empty, Nat.add_sub_cancel' hbeyond] at hrun
    rw [hempty, hrun, run_empty]

theorem HasRoom.rest {bytes : ByteArray} {instructions : List Instruction} {start : UInt64}
    (hroom : HasRoom bytes instructions start) :
    HasRoom (bytes.extract start.toNat bytes.size) instructions 0 := by
  unfold HasRoom at hroom ⊢
  rw [ByteArray.size_extract, UInt64.toNat_zero]
  omega

/-- With room the cursor may as well be kept in a word. -/
theorem runWord_eq_run_rest {bytes : ByteArray} {instructions : List Instruction}
    {start : UInt64} (hroom : HasRoom bytes instructions start) :
    runWord bytes instructions start =
      run (bytes.extract start.toNat bytes.size) instructions 0 := by
  rw [runWord_eq_run hroom, run_eq_run_rest]

/-- What is left behind a place within a text is not empty. -/
theorem isRestOf_extract {bytes : ByteArray} {start : Nat} (h : start < bytes.size) :
    IsRestOf (bytes.extract start bytes.size) bytes ∧
      bytes.extract start bytes.size ≠ ByteArray.empty := by
  constructor
  · exact ⟨bytes.extract 0 start, extract_append_rest (Nat.le_of_lt h)⟩
  · rw [ne_eq, ByteArray.extract_eq_empty_iff]
    omega

namespace Program

variable {program : Program} {bytes : ByteArray}

theorem accepts_iff_of_isAnchored (h : program.isAnchored = true) :
    program.accepts bytes = true ↔
      bytes ≠ ByteArray.empty ∧ run bytes program.body 0 = true := by
  have hsize : bytes ≠ ByteArray.empty ↔ 0 < bytes.size := by
    rw [Nat.pos_iff_ne_zero, ne_eq, ne_eq, ByteArray.size_eq_zero_iff]
  rw [accepts_iff, hsize]
  constructor
  · rintro ⟨start, hstart, hzero, hrun⟩
    obtain rfl := hzero h
    exact ⟨hstart, hrun⟩
  · rintro ⟨hsize, hrun⟩
    exact ⟨0, hsize, fun _ => rfl, hrun⟩

theorem accepts_iff_of_not_isAnchored (h : program.isAnchored = false) :
    program.accepts bytes = true ↔
      ∃ rest, IsRestOf rest bytes ∧ rest ≠ ByteArray.empty ∧
        run rest program.instructions 0 = true := by
  have hbody : program.body = program.instructions := by
    rw [body, h, if_neg Bool.false_ne_true]
  rw [accepts_iff, hbody]
  constructor
  · rintro ⟨start, hstart, -, hrun⟩
    obtain ⟨hrest, hne⟩ := isRestOf_extract hstart
    exact ⟨_, hrest, hne, by rwa [← run_eq_run_rest]⟩
  · rintro ⟨rest, ⟨front, rfl⟩, hne, hrun⟩
    have hsize : rest.size ≠ 0 := by rwa [ne_eq, ByteArray.size_eq_zero_iff]
    refine ⟨front.size, ?_, fun hanchored => ?_, ?_⟩
    · rw [ByteArray.size_append]
      omega
    · rw [h] at hanchored
      contradiction
    · exact (run_append_left front rest _ 0).trans hrun

end Program

/-- A run depends on what is left of a text from its start on, wherever that is and whatever
its instructions are, as long as its cursor does not run out of words.  So a program without the
head anchor accepts a text if and only if it succeeds from the first byte of some rest of it that
is not empty, and a program with the head anchor if and only if the text is not empty and what
follows the anchor succeeds from its first byte.  All the runs that this takes have room. -/
theorem run_and_accepts_of_rest :
    (∀ (bytes : ByteArray) (instructions : List Instruction) (start : UInt64),
      HasRoom bytes instructions start →
      runWord bytes instructions start =
          runWord (bytes.extract start.toNat bytes.size) instructions 0 ∧
        runWord bytes instructions start =
          run (bytes.extract start.toNat bytes.size) instructions 0) ∧
    ∀ (program : Program) (bytes : ByteArray),
      (program.isAnchored = false →
        (program.accepts bytes = true ↔
          ∃ rest, IsRestOf rest bytes ∧ rest ≠ ByteArray.empty ∧
            run rest program.instructions 0 = true)) ∧
      (program.isAnchored = true →
        (program.accepts bytes = true ↔
          bytes ≠ ByteArray.empty ∧ run bytes program.body 0 = true)) ∧
      (program.instructions.length ≤ instructionLimit → bytes.size < 2 ^ 63 →
        (program.accepts bytes = true ↔
          ∃ start < bytes.size, (program.isAnchored = true → start = 0) ∧
            runWord bytes program.body (UInt64.ofNat start) = true)) := by
  refine ⟨fun bytes instructions start hroom => ⟨?_, runWord_eq_run_rest hroom⟩,
    fun program bytes => ⟨fun h => ?_, fun h => ?_, fun hlength hsize => ?_⟩⟩
  · rw [runWord_eq_run_rest hroom, runWord_eq_run hroom.rest]
    rfl
  · exact Program.accepts_iff_of_not_isAnchored h
  · exact Program.accepts_iff_of_isAnchored h
  · exact Program.accepts_iff_runWord hlength hsize

/-- A program that asks for a `b` and the end, with and without the head anchor, on `ab`.  It
succeeds from the `b` on, as it does on the rest `b`. -/
theorem accepts_rest_of_ab :
    let instructions : List Instruction := [⟨.char, 0x62⟩, Instruction.tail, Instruction.accept]
    let free := Program.ofInstructions instructions Flags.empty
    let anchored := Program.ofInstructions (Instruction.head :: instructions) Flags.empty
    let bytes : ByteArray := ⟨#[0x61, 0x62]⟩
    HasRoom bytes instructions 1 ∧ runWord bytes instructions 1 = true ∧
      free.isAnchored = false ∧ free.accepts bytes = true ∧
      anchored.isAnchored = true ∧ anchored.accepts bytes = false ∧
      ¬ ∃ start < bytes.size, (anchored.isAnchored = true → start = 0) ∧
        runWord bytes anchored.body (UInt64.ofNat start) = true := by
  intro instructions free anchored bytes
  have hrest : IsRestOf ⟨#[0x62]⟩ bytes := ⟨⟨#[0x61]⟩, by decide⟩
  have hroom : HasRoom bytes instructions 1 := by
    unfold HasRoom
    decide
  have hanchored : anchored.accepts bytes = false := by
    rw [Bool.eq_false_iff, ne_eq, (run_and_accepts_of_rest.2 anchored bytes).2.1 (by decide)]
    decide
  refine ⟨hroom, ?_, by decide, ?_, by decide, hanchored, ?_⟩
  · exact ((run_and_accepts_of_rest.1 bytes instructions 1 hroom).2).trans (by decide)
  · exact ((run_and_accepts_of_rest.2 free bytes).1 (by decide)).2
      ⟨⟨#[0x62]⟩, hrest, by decide, by decide⟩
  · rw [← (run_and_accepts_of_rest.2 anchored bytes).2.2 (by decide) (by decide), hanchored]
    exact Bool.false_ne_true

/-- Without room a run does not depend on what is left of a text only.  A separator and an `a`
succeed from the greatest word on, over the terminator and the first byte of `a`, and fail on the
rest, which is empty. -/
example :
    let instructions : List Instruction :=
      [⟨.char, Operand.separator⟩, ⟨.char, 0x61⟩, Instruction.accept]
    let bytes : ByteArray := ⟨#[0x61]⟩
    runWord bytes instructions 0xffffffffffffffff = true ∧
      runWord ByteArray.empty instructions 0 = false := by
  decide

end UrlFilter
