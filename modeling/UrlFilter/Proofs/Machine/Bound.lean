/-
How far the cursor gets.

No search asks where the text ends.  It goes on only over a byte that is not the terminator, and
that is a byte of the text, so a search never leaves the text.  Only a comparison may step over
the terminator, and each comparison takes one step.  So the cursor is behind the end of the text
by no more than the number of comparisons done, and a program is short.
-/
import UrlFilter.Program
import UrlFilter.Proofs.Machine.Extend
import UrlFilter.Proofs.Machine.Turn
import Mathlib.Algebra.Group.Nat.Defs

namespace UrlFilter

namespace Position

/-- The number of comparisons that are done. -/
def comparisons (position : Position) : Nat :=
  position.behind.countP fun instruction => instruction.opcode = .char

/-- What a turn does with which a run goes on. -/
inductive Goes (bytes : ByteArray) (position : Position) : Position → Prop
  /-- A comparison is done, and its byte is stepped over. -/
  | compare {instruction : Instruction} {rest : List Instruction} :
      position.ahead = instruction :: rest → instruction.opcode = .char →
      Goes bytes position (position.finish.step false)
  /-- A search goes on over a byte of the text. -/
  | search (pastColon : Bool) {instruction : Instruction} {rest : List Instruction} :
      position.ahead = instruction :: rest → instruction.opcode ≠ .char →
      position.cursor < bytes.size →
      Goes bytes position (position.step pastColon)
  /-- A search is at its end. -/
  | finish {instruction : Instruction} {rest : List Instruction} :
      position.ahead = instruction :: rest → instruction.opcode ≠ .char →
      Goes bytes position position.finish

section

variable {bytes : ByteArray} {position next : Position}

/-- A turn does nothing else.  Each search goes on over bytes of its own, and the terminator is in
none of them. -/
theorem goes_of_turn (h : position.turn bytes = .goes next) : Goes bytes position next := by
  obtain ⟨behind, ahead, pastColon, cursor⟩ := position
  cases ahead with
  | nil => contradiction
  | cons instruction rest =>
      obtain ⟨opcode, operand⟩ := instruction
      cases opcode with
      | char =>
          simp only [turn] at h
          split at h
          · obtain rfl := Turn.goes.inj h
            exact .compare rfl rfl
          · contradiction
      | skipTo =>
          simp only [turn] at h
          split at h
          · obtain rfl := Turn.goes.inj h
            exact .finish rfl Opcode.noConfusion
          · split at h
            · contradiction
            · rename_i hinside
              obtain rfl := Turn.goes.inj h
              exact .search false rfl Opcode.noConfusion (lt_size_of_byteAt_ne hinside)
      | skipScheme =>
          simp only [turn] at h
          split at h
          · split at h
            · rename_i hslash
              obtain rfl := Turn.goes.inj h
              have hinside : byteAt bytes cursor ≠ terminator := hslash ▸ by decide
              exact .search true rfl Opcode.noConfusion (lt_size_of_byteAt_ne hinside)
            · obtain rfl := Turn.goes.inj h
              exact .finish rfl Opcode.noConfusion
          · split at h
            · rename_i hcolon
              obtain rfl := Turn.goes.inj h
              have hinside : byteAt bytes cursor ≠ terminator := hcolon ▸ by decide
              exact .search true rfl Opcode.noConfusion (lt_size_of_byteAt_ne hinside)
            · split at h
              · rename_i hscheme
                obtain rfl := Turn.goes.inj h
                refine .search false rfl Opcode.noConfusion (lt_size_of_byteAt_ne ?_)
                intro hterminator
                rw [hterminator, not_isSchemeByte_terminator] at hscheme
                contradiction
              · contradiction
      | accept => contradiction

end

section Finish

variable {position : Position} {instruction : Instruction} {rest : List Instruction}

theorem comparisons_finish (h : position.ahead = instruction :: rest) :
    position.finish.comparisons =
      position.comparisons + if instruction.opcode = .char then 1 else 0 := by
  simp [comparisons, Position.finish, h, List.countP_singleton]

theorem instructions_finish (position : Position) :
    position.finish.behind ++ position.finish.ahead = position.behind ++ position.ahead := by
  rw [Position.finish, List.append_assoc, ← List.drop_one, List.take_append_drop]

end Finish

/-- What a run keeps from a position to a later one. -/
structure Precedes (bytes : ByteArray) (origin position : Position) : Prop where
  instructions_eq : position.behind ++ position.ahead = origin.behind ++ origin.ahead
  cursor_le : origin.cursor ≤ position.cursor
  comparisons_le : origin.comparisons ≤ position.comparisons
  cursor_add_le : origin.cursor ≤ bytes.size →
    position.cursor + origin.comparisons ≤ bytes.size + position.comparisons

section

variable {bytes : ByteArray} {origin position next : Position}

theorem precedes_self (bytes : ByteArray) (position : Position) :
    position.Precedes bytes position where
  instructions_eq := rfl
  cursor_le := Nat.le_refl _
  comparisons_le := Nat.le_refl _
  cursor_add_le := fun h => Nat.add_le_add_right h _

/-- A turn keeps it. -/
theorem Precedes.turn (hprecedes : origin.Precedes bytes position) (h : Goes bytes position next) :
    origin.Precedes bytes next := by
  obtain ⟨hinstructions, hcursor, hcomparisons, hbound⟩ := hprecedes
  cases h with
  | compare hahead hchar =>
      have hdone := comparisons_finish hahead
      rw [if_pos hchar] at hdone
      change origin.Precedes bytes (position.finish.step false)
      refine ⟨(instructions_finish position).trans hinstructions, ?_, ?_, fun hstart => ?_⟩
      · exact Nat.le_succ_of_le hcursor
      · change origin.comparisons ≤ position.finish.comparisons
        omega
      · have := hbound hstart
        change position.cursor + 1 + origin.comparisons ≤
          bytes.size + position.finish.comparisons
        omega
  | search pastColon hahead hchar hinside =>
      refine ⟨hinstructions, Nat.le_succ_of_le hcursor, hcomparisons, fun hstart => ?_⟩
      change position.cursor + 1 + origin.comparisons ≤ bytes.size + position.comparisons
      omega
  | finish hahead hchar =>
      have hdone := comparisons_finish hahead
      rw [if_neg hchar, Nat.add_zero] at hdone
      refine ⟨(instructions_finish position).trans hinstructions, hcursor, ?_, fun hstart => ?_⟩
      · rwa [hdone]
      · rw [hdone]
        exact hbound hstart

/-- So a run does. -/
theorem precedes_of_reaches (h : Reaches bytes origin position) :
    origin.Precedes bytes position := by
  induction h with
  | refl => exact precedes_self bytes origin
  | tail _ hturn ih => exact ih.turn (goes_of_turn hturn)

end

/-- How far the cursor is at a position of a run, and how far it gets from there. -/
structure IsBounded (bytes : ByteArray) (instructions : List Instruction) (start : Nat)
    (position : Position) : Prop where
  instructions_eq : position.behind ++ position.ahead = instructions
  start_le : start ≤ position.cursor
  cursor_le : position.cursor ≤ bytes.size + position.comparisons
  /-- The cursor never goes back. -/
  cursor_le_later : ∀ later, Reaches bytes position later → position.cursor ≤ later.cursor
  /-- A turn that moves the cursor to a place behind the end of the text is a comparison. -/
  compares_of_beyond : ∀ next, position.turn bytes = .goes next →
    position.cursor < next.cursor → bytes.size < next.cursor →
    ∃ instruction rest, position.ahead = instruction :: rest ∧ instruction.opcode = .char
  /-- A search that starts within the text, or at its end, does not leave it, and neither do any
  number of searches with no comparison between them. -/
  search_le_size : position.cursor ≤ bytes.size → ∀ later, Reaches bytes position later →
    later.comparisons = position.comparisons → later.cursor ≤ bytes.size

theorem isBounded_of_reaches {bytes : ByteArray} {instructions : List Instruction} {cursor : Nat}
    (hstart : cursor ≤ bytes.size) {position : Position}
    (h : Reaches bytes (start instructions cursor) position) :
    position.IsBounded bytes instructions cursor where
  instructions_eq := (precedes_of_reaches h).instructions_eq
  start_le := (precedes_of_reaches h).cursor_le
  cursor_le := (precedes_of_reaches h).cursor_add_le hstart
  cursor_le_later := fun _ hlater => (precedes_of_reaches hlater).cursor_le
  compares_of_beyond := by
    intro next hturn hmoves hbeyond
    cases goes_of_turn hturn with
    | compare hahead hchar => exact ⟨_, _, hahead, hchar⟩
    | search pastColon hahead hchar hinside =>
        change bytes.size < position.cursor + 1 at hbeyond
        omega
    | finish hahead hchar => exact absurd hmoves (Nat.lt_irrefl _)
  search_le_size := by
    intro hinside later hlater hcomparisons
    have hbound := (precedes_of_reaches hlater).cursor_add_le hinside
    omega

/-- A search that moves at all moves to a place of the text or to its end. -/
theorem move?_within {bytes : ByteArray} {cursor next : Nat} {instruction : Instruction}
    (hsearch : instruction.opcode = .skipTo ∨ instruction.opcode = .skipScheme)
    (hinside : cursor ≤ bytes.size) (h : instruction.move? bytes cursor = some next) :
    cursor ≤ next ∧ next ≤ bytes.size := by
  have hopcode : instruction.opcode ≠ .accept ∧ instruction.opcode ≠ .char := by
    rcases hsearch with heq | heq <;> simp [heq]
  have hreaches : Reaches bytes (start [instruction] cursor) ⟨[instruction], [], false, next⟩ :=
    reaches_of_move? hopcode.1 h
  obtain ⟨-, hcursor, -, hbound⟩ := precedes_of_reaches hreaches
  have hnone : comparisons ⟨[instruction], [], false, next⟩ = 0 := by
    simp [comparisons, hopcode.2]
  have hnext := hbound hinside
  rw [hnone] at hnext
  exact ⟨hcursor, hnext⟩

/-- No more comparisons are done than there are instructions. -/
theorem comparisons_le_length {bytes : ByteArray} {instructions : List Instruction}
    {cursor : Nat} {position : Position}
    (h : Reaches bytes (start instructions cursor) position) :
    position.comparisons ≤ instructions.length := by
  have hinstructions : position.behind ++ position.ahead = instructions :=
    (precedes_of_reaches h).instructions_eq
  calc position.comparisons ≤ position.behind.length := List.countP_le_length
    _ ≤ (position.behind ++ position.ahead).length := by simp
    _ = instructions.length := by rw [hinstructions]

end Position

/-- A run over a text goes through positions, one turn after the other, and ends in the last one
with its answer.  If it starts within the text or at its end, the cursor is bounded at each of
them, and so no search that it makes as one move leaves the text.  For a program within the limit
and a text of less than `2 ^ 63` bytes the cursor is far from the greatest word of 64 bits, so it
can be increased by one as such a word wherever it is. -/
theorem run_keeps_cursor_bounded :
    (∀ bytes instructions start accepted,
      run bytes instructions start = accepted ↔
        ∃ final, Position.Reaches bytes (.start instructions start) final ∧
          final.turn bytes = .ends accepted) ∧
    (∀ bytes instructions start, start ≤ bytes.size →
      ∀ position, Position.Reaches bytes (.start instructions start) position →
        position.IsBounded bytes instructions start) ∧
    (∀ bytes cursor next (instruction : Instruction),
      instruction.opcode = .skipTo ∨ instruction.opcode = .skipScheme →
      cursor ≤ bytes.size → instruction.move? bytes cursor = some next →
      cursor ≤ next ∧ next ≤ bytes.size) ∧
    ∀ (program : Program) (bytes : ByteArray) (start : Nat),
      program.instructions.length ≤ instructionLimit → bytes.size ≤ 2 ^ 63 - 1 →
      start < bytes.size →
      ∀ position, Position.Reaches bytes (.start program.body start) position →
        (UInt64.ofNat position.cursor + 1).toNat = position.cursor + 1 := by
  refine ⟨fun _ _ _ _ => Position.run_eq_iff, fun _ _ _ hstart _ => ?_, ?_, ?_⟩
  · exact Position.isBounded_of_reaches hstart
  · intro bytes cursor next instruction hsearch hinside hmove
    exact Position.move?_within hsearch hinside hmove
  · intro program bytes start hprogram hsize hstart position hreaches
    have hbound := (Position.isBounded_of_reaches (Nat.le_of_lt hstart) hreaches).cursor_le
    have hcomparisons : position.comparisons ≤ instructionLimit :=
      calc position.comparisons ≤ program.body.length :=
            Position.comparisons_le_length hreaches
        _ ≤ program.instructions.length := program.length_body_le
        _ ≤ instructionLimit := hprogram
    rw [instructionLimit] at hcomparisons
    rw [UInt64.toNat_add, UInt64.toNat_ofNat', UInt64.toNat_one]
    omega

/-- A program for a host that asks for two separators, on `a:`.  Both are read behind the end of
the text. -/
theorem cursor_behind_the_end :
    let program := Program.ofInstructions [Instruction.head, Instruction.skipScheme,
      ⟨.char, Operand.separator⟩, ⟨.char, Operand.separator⟩, Instruction.accept] Flags.empty
    let bytes : ByteArray := ⟨#[0x61, 0x3a]⟩
    ∃ position, Position.Reaches bytes (.start program.body 0) position ∧
      position.turn bytes = .ends true ∧ run bytes program.body 0 = true ∧
      position.IsBounded bytes program.body 0 ∧
      position.cursor = bytes.size + position.comparisons ∧
      (UInt64.ofNat position.cursor + 1).toNat = position.cursor + 1 := by
  intro program bytes
  let final : Position := ⟨[Instruction.skipScheme, ⟨.char, Operand.separator⟩,
    ⟨.char, Operand.separator⟩], [Instruction.accept], false, 4⟩
  have hreaches : Position.Reaches bytes (.start program.body 0) final :=
    .head rfl (.head rfl (.head rfl (.head rfl (.head rfl .refl))))
  obtain ⟨hrun, hbounded, -, hword⟩ := run_keeps_cursor_bounded
  have hend : final.turn bytes = .ends true := by decide
  exact ⟨final, hreaches, hend, (hrun bytes program.body 0 true).2 ⟨final, hreaches, hend⟩,
    hbounded bytes program.body 0 (by decide) final hreaches, by decide,
    hword program bytes 0 (by decide) (by decide) (by decide) final hreaches⟩

end UrlFilter
