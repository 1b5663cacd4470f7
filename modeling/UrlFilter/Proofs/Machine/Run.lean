/-
Runs over tokens.

A run goes through its instructions one move at a time, so a run over the tokens
of a pattern is a chain of places: a token for a byte under the cursor needs the
byte and goes one place on, and a token for a search goes to a later place and
stays there.
-/
import UrlFilter.Pattern.Syntax
import UrlFilter.Proofs.Machine.Move

namespace UrlFilter

theorem run_cons_iff {bytes : ByteArray} {instruction : Instruction}
    {rest : List Instruction} {cursor : Nat} (h : instruction.opcode ≠ .accept) :
    run bytes (instruction :: rest) cursor = true ↔
      ∃ next, instruction.move? bytes cursor = some next ∧
        run bytes rest next = true := by
  rw [run_cons h]
  exact Option.any_eq_true _ _

theorem Token.opcode_ne_accept (matchCase : Bool) (token : Token) :
    (token.instruction matchCase).opcode ≠ .accept := by
  cases token <;> simp [Token.instruction]

/-- A comparison needs a byte that fits and goes one place on. -/
theorem run_char_iff {bytes : ByteArray} {operand : Int} {rest : List Instruction}
    {cursor : Nat} :
    run bytes (⟨.char, operand⟩ :: rest) cursor = true ↔
      Operand.fits operand (byteAt bytes cursor) = true ∧
        run bytes rest (cursor + 1) = true := by
  rw [run_cons_iff Opcode.noConfusion]
  simp only [Instruction.move?_char_eq_some_iff]
  constructor
  · rintro ⟨next, ⟨hfits, rfl⟩, hrest⟩
    exact ⟨hfits, hrest⟩
  · rintro ⟨hfits, hrest⟩
    exact ⟨cursor + 1, ⟨hfits, rfl⟩, hrest⟩

theorem run_here_iff {bytes : ByteArray} {matchCase : Bool} {atom : Atom}
    {rest : List Instruction} {cursor : Nat} :
    run bytes ((Token.here atom).instruction matchCase :: rest) cursor = true ↔
      Operand.fits (atom.operand matchCase) (byteAt bytes cursor) = true ∧
        run bytes rest (cursor + 1) = true :=
  run_char_iff

theorem run_seek_iff {bytes : ByteArray} {matchCase : Bool} {atom : Atom}
    {rest : List Instruction} {cursor : Nat} :
    run bytes ((Token.seek atom).instruction matchCase :: rest) cursor = true ↔
      ∃ next, cursor ≤ next ∧
        Operand.fits (atom.operand matchCase) (byteAt bytes next) = true ∧
        (∀ place, cursor ≤ place → place < next →
          Operand.fits (atom.operand matchCase) (byteAt bytes place) = false ∧
            byteAt bytes place ≠ terminator) ∧
        run bytes rest next = true := by
  rw [run_cons_iff (Token.opcode_ne_accept matchCase _)]
  simp only [Token.instruction, Instruction.move?_skipTo_eq_some_iff, and_assoc]

/-- Tokens for bytes under the cursor need one byte after the other. -/
theorem run_map_here_iff {bytes : ByteArray} {matchCase : Bool} {atoms : List Atom}
    {rest : List Instruction} {cursor : Nat} :
    run bytes ((atoms.map Token.here).map (Token.instruction matchCase) ++ rest)
        cursor = true ↔
      (∀ index atom, atoms[index]? = some atom →
        Operand.fits (atom.operand matchCase) (byteAt bytes (cursor + index)) = true) ∧
        run bytes rest (cursor + atoms.length) = true := by
  induction atoms generalizing cursor with
  | nil => simp
  | cons atom atoms ih =>
      rw [List.map_cons, List.map_cons, List.cons_append, run_here_iff, ih,
        List.length_cons, ← and_assoc]
      have hcursor : cursor + 1 + atoms.length = cursor + (atoms.length + 1) := by omega
      rw [hcursor]
      refine and_congr_left fun _ => ?_
      constructor
      · rintro ⟨hfirst, hothers⟩ index other hother
        cases index with
        | zero =>
            cases hother
            exact hfirst
        | succ index =>
            rw [List.getElem?_cons_succ] at hother
            have := hothers index other hother
            rwa [show cursor + (index + 1) = cursor + 1 + index by omega]
      · intro hall
        refine ⟨hall 0 atom rfl, fun index other hother => ?_⟩
        rw [show cursor + 1 + index = cursor + (index + 1) by omega]
        exact hall (index + 1) other (by rwa [List.getElem?_cons_succ])

end UrlFilter
