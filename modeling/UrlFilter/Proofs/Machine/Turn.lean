/-
Runs in turns.

In one turn the machine reads one byte.  A comparison takes one turn, and a search takes one for
every byte that it moves the cursor over and one more at its end.  A search looks at nothing but
the byte under the cursor, not even for the end of the text: the terminator has to stop it.  It
always does, and a run in turns ends with the answer of `run`, where a search is one move that
has no more room than the text.
-/
import UrlFilter.Proofs.Machine.Run
import Mathlib.Logic.Relation

namespace UrlFilter

/-- A run between two turns. -/
structure Position where
  /-- The instructions that are done, in order. -/
  behind : List Instruction
  /-- The instructions that are left, with the one under way in front. -/
  ahead : List Instruction
  /-- Is the colon of the scheme under way behind the cursor? -/
  pastColon : Bool
  cursor : Nat
  deriving DecidableEq, Repr

/-- What comes of a turn. -/
inductive Turn
  /-- The run goes on. -/
  | goes (next : Position)
  /-- The run ends with an answer. -/
  | ends (accepted : Bool)
  deriving DecidableEq, Repr

namespace Position

/-- Where a run starts. -/
def start (instructions : List Instruction) (cursor : Nat) : Position :=
  ⟨[], instructions, false, cursor⟩

/-- The cursor moves over one byte. -/
def step (position : Position) (pastColon : Bool) : Position :=
  { position with pastColon, cursor := position.cursor + 1 }

/-- The instruction under way is done. -/
def finish (position : Position) : Position :=
  ⟨position.behind ++ position.ahead.take 1, position.ahead.tail, false, position.cursor⟩

/-- One turn. -/
def turn (bytes : ByteArray) (position : Position) : Turn :=
  let byte := byteAt bytes position.cursor
  match position.ahead with
  | [] => .ends true
  | instruction :: _ =>
      match instruction.opcode with
      | .char =>
          if Operand.fits instruction.operand byte then .goes (position.finish.step false)
          else .ends false
      | .skipTo =>
          if Operand.fits instruction.operand byte then .goes position.finish
          else if byte = terminator then .ends false
          else .goes (position.step false)
      | .skipScheme =>
          if position.pastColon then
            if byte = Byte.slash then .goes (position.step true) else .goes position.finish
          else if byte = Byte.colon then .goes (position.step true)
          else if isSchemeByte byte then .goes (position.step false)
          else .ends false
      | .accept => .ends true

/-- The one position comes behind the other in a run, after any number of turns. -/
def Reaches (bytes : ByteArray) : Position → Position → Prop :=
  Relation.ReflTransGen fun position next => position.turn bytes = .goes next

section Search

variable {bytes : ByteArray} {behind rest : List Instruction} {instruction : Instruction}
  {cursor : Nat}

/-- Turns that each move the cursor over one byte. -/
theorem reaches_of_steps {ahead : List Instruction} {pastColon : Bool} {stop : Nat}
    (hle : cursor ≤ stop)
    (hturn : ∀ place, cursor ≤ place → place < stop →
      (mk behind ahead pastColon place).turn bytes =
        .goes ⟨behind, ahead, pastColon, place + 1⟩) :
    Reaches bytes ⟨behind, ahead, pastColon, cursor⟩ ⟨behind, ahead, pastColon, stop⟩ := by
  obtain ⟨distance, rfl⟩ := Nat.exists_eq_add_of_le hle
  clear hle
  induction distance with
  | zero => exact .refl
  | succ distance ih =>
      have hbefore := ih fun place hfrom hto => hturn place hfrom (Nat.lt_succ_of_lt hto)
      exact hbefore.tail (hturn (cursor + distance) (Nat.le_add_right _ _) (Nat.lt_succ_self _))

/-- A scheme goes on over its bytes, none of which is a colon. -/
theorem turn_scheme {operand : Int} (h : isSchemeByte (byteAt bytes cursor) = true) :
    (mk behind (⟨.skipScheme, operand⟩ :: rest) false cursor).turn bytes =
      .goes ⟨behind, ⟨.skipScheme, operand⟩ :: rest, false, cursor + 1⟩ := by
  have hother : byteAt bytes cursor ≠ Byte.colon := by
    intro hcolon
    rw [hcolon] at h
    exact absurd h (by decide)
  exact (if_neg hother).trans (if_pos h)

/-- An instruction that moves is done in the end, and the cursor is where it moves. -/
theorem reaches_of_move? (haccept : instruction.opcode ≠ .accept) {next : Nat}
    (h : instruction.move? bytes cursor = some next) :
    Reaches bytes ⟨behind, instruction :: rest, false, cursor⟩
      ⟨behind ++ [instruction], rest, false, next⟩ := by
  obtain ⟨opcode, operand⟩ := instruction
  cases opcode with
  | char =>
      obtain ⟨hfits, rfl⟩ := Instruction.move?_char_eq_some_iff.1 h
      exact .single (if_pos hfits)
  | skipTo =>
      obtain ⟨hle, hfits, hskipped⟩ := Instruction.move?_skipTo_eq_some_iff.1 h
      refine (reaches_of_steps hle fun place hfrom hto => ?_).tail (if_pos hfits)
      obtain ⟨hother, hinside⟩ := hskipped place hfrom hto
      exact (if_neg (Bool.eq_false_iff.1 hother)).trans (if_neg hinside)
  | skipScheme =>
      obtain ⟨colon, hle, hcolon, hscheme, hlt, hend, hslashes⟩ :=
        Instruction.move?_skipScheme_eq_some_iff.1 h
      have hfront : Reaches bytes ⟨behind, ⟨.skipScheme, operand⟩ :: rest, false, cursor⟩
          ⟨behind, ⟨.skipScheme, operand⟩ :: rest, false, colon⟩ :=
        reaches_of_steps hle fun place hfrom hto => turn_scheme (hscheme place hfrom hto)
      have hslash : Reaches bytes ⟨behind, ⟨.skipScheme, operand⟩ :: rest, true, colon + 1⟩
          ⟨behind, ⟨.skipScheme, operand⟩ :: rest, true, next⟩ :=
        reaches_of_steps hlt fun place hfrom hto => if_pos (hslashes place hfrom hto)
      exact ((hfront.tail (if_pos hcolon)).trans hslash).tail (if_neg hend)
  | accept => exact absurd rfl haccept

/-- An instruction that does not move ends the run. -/
theorem exists_end_of_move?_eq_none (haccept : instruction.opcode ≠ .accept)
    (h : instruction.move? bytes cursor = none) :
    ∃ final, Reaches bytes ⟨behind, instruction :: rest, false, cursor⟩ final ∧
      final.turn bytes = .ends false := by
  obtain ⟨opcode, operand⟩ := instruction
  cases opcode with
  | char =>
      rw [move?_char, ite_eq_right_iff] at h
      exact ⟨_, .refl, if_neg fun hfits => Option.some_ne_none _ (h hfits)⟩
  | skipTo =>
      -- The search stops in front of the terminator, since the byte that it stops at does not
      -- fit.
      let skip := fun byte => !Operand.fits operand byte && byte != terminator
      have hterminator : skip terminator = false := by simp [skip]
      obtain ⟨hle, hstop, hskipped⟩ := (advance_eq_iff hterminator).1
        (Eq.refl (advance bytes skip cursor))
      have hother : Operand.fits operand (byteAt bytes (advance bytes skip cursor)) ≠ true :=
        fun hfits => Option.some_ne_none _ (ite_eq_right_iff.1 h hfits)
      have hend : byteAt bytes (advance bytes skip cursor) = terminator := by
        simpa [skip, hother] using hstop
      refine ⟨_, reaches_of_steps hle fun place hfrom hto => ?_,
        (if_neg hother).trans (if_pos hend)⟩
      have hplace := hskipped place hfrom hto
      simp only [skip, Bool.and_eq_true, Bool.not_eq_true', bne_iff_ne] at hplace
      exact (if_neg (Bool.eq_false_iff.1 hplace.1)).trans (if_neg hplace.2)
  | skipScheme =>
      obtain ⟨hle, hstop, hscheme⟩ := (advance_eq_iff not_isSchemeByte_terminator).1
        (Eq.refl (advance bytes isSchemeByte cursor))
      have hother : byteAt bytes (advance bytes isSchemeByte cursor) ≠ Byte.colon :=
        fun hcolon => Option.some_ne_none _ (ite_eq_right_iff.1 h hcolon)
      refine ⟨_, reaches_of_steps hle fun place hfrom hto => turn_scheme (hscheme place hfrom hto),
        (if_neg hother).trans (if_neg (Bool.eq_false_iff.1 hstop))⟩
  | accept => exact absurd rfl haccept

end Search

/-- A run in turns ends with the answer of `run`. -/
theorem exists_end (bytes : ByteArray) (instructions behind : List Instruction) (cursor : Nat) :
    ∃ final, Reaches bytes ⟨behind, instructions, false, cursor⟩ final ∧
      final.turn bytes = .ends (run bytes instructions cursor) := by
  induction instructions generalizing behind cursor with
  | nil => exact ⟨_, .refl, rfl⟩
  | cons instruction rest ih =>
      by_cases haccept : instruction.opcode = .accept
      · refine ⟨_, .refl, ?_⟩
        rw [run, if_pos haccept]
        simp only [turn, haccept]
      · rw [run_cons haccept]
        cases hmove : instruction.move? bytes cursor with
        | none => exact exists_end_of_move?_eq_none haccept hmove
        | some next =>
            obtain ⟨final, hreaches, hend⟩ := ih (behind ++ [instruction]) next
            exact ⟨final, (reaches_of_move? haccept hmove).trans hreaches, hend⟩

/-- Behind its end a run has no positions. -/
theorem eq_of_reaches_of_ends {bytes : ByteArray} {position later : Position} {accepted : Bool}
    (hend : position.turn bytes = .ends accepted) (h : Reaches bytes position later) :
    later = position := by
  rcases Relation.ReflTransGen.cases_head h with heq | ⟨next, hturn, -⟩
  · exact heq.symm
  · rw [hend] at hturn
    contradiction

/-- A run in turns has one end only. -/
theorem end_unique {bytes : ByteArray} {position left right : Position} {first second : Bool}
    (hleft : Reaches bytes position left) (hright : Reaches bytes position right)
    (hfirst : left.turn bytes = .ends first) (hsecond : right.turn bytes = .ends second) :
    left = right := by
  induction hleft using Relation.ReflTransGen.head_induction_on with
  | refl => exact (eq_of_reaches_of_ends hfirst hright).symm
  | head hturn hrest ih =>
      rcases Relation.ReflTransGen.cases_head hright with heq | ⟨next, hnext, hbehind⟩
      · rw [heq, hsecond] at hturn
        contradiction
      · rw [hturn] at hnext
        obtain rfl := Turn.goes.inj hnext
        exact ih hbehind

/-- The answer of a run is that with which it ends in turns. -/
theorem run_eq_iff {bytes : ByteArray} {instructions : List Instruction} {cursor : Nat}
    {accepted : Bool} :
    run bytes instructions cursor = accepted ↔
      ∃ final, Reaches bytes (start instructions cursor) final ∧
        final.turn bytes = .ends accepted := by
  obtain ⟨final, hreaches, hend⟩ := exists_end bytes instructions [] cursor
  constructor
  · rintro rfl
    exact ⟨final, hreaches, hend⟩
  · rintro ⟨other, hother, haccepted⟩
    rw [end_unique hother hreaches haccepted hend, hend] at haccepted
    exact Turn.ends.inj haccepted

end Position

end UrlFilter
