/-
Moves of the machine.

Where an instruction takes the cursor, said by what stands at the places between
and not by the search for them.  All three searches of the machine stop at the
terminator at the latest, so each ends at the first place that is not skipped.
-/
import UrlFilter.Machine

namespace UrlFilter

theorem getElem?_utf8_of_lt {text : String} {place : Nat}
    (hplace : place < (utf8 text).length) :
    (utf8 text)[place]? = some (byteAt text.toByteArray place) := by
  have hsize : place < text.toByteArray.size := by simpa [utf8] using hplace
  rw [byteAt_of_lt hsize, List.getElem?_eq_getElem hplace]
  rfl

/-- A byte other than the terminator is read at a place exactly if it stands
there. -/
theorem byteAt_eq_iff {text : String} {place : Nat} {byte : UInt8}
    (hbyte : byte ≠ terminator) :
    byteAt text.toByteArray place = byte ↔ (utf8 text)[place]? = some byte := by
  by_cases hplace : place < (utf8 text).length
  · rw [getElem?_utf8_of_lt hplace, Option.some.injEq]
  · have hle : (utf8 text).length ≤ place := Nat.le_of_not_lt hplace
    rw [byteAt_of_size_le (by simpa [utf8] using hle), List.getElem?_eq_none hle]
    exact ⟨fun h => absurd h.symm hbyte, fun h => by simp at h⟩

/-- A class that the terminator is in has the byte at a place exactly if it has
whatever stands there. -/
theorem byteAt_mem_iff {text : String} {place : Nat} {class? : UInt8 → Bool}
    (hterminator : class? terminator = true) :
    class? (byteAt text.toByteArray place) = true ↔
      ∀ byte, (utf8 text)[place]? = some byte → class? byte = true := by
  by_cases hread : byteAt text.toByteArray place = terminator
  · rw [hread, hterminator]
    refine ⟨fun _ byte hbyte => ?_, fun _ => rfl⟩
    by_cases hzero : byte = terminator
    · rw [hzero, hterminator]
    · rw [← byteAt_eq_iff hzero, hread] at hbyte
      exact absurd hbyte.symm hzero
  · have hplace := (byteAt_eq_iff hread).1 rfl
    rw [hplace]
    simp

/-- A move over a class without the terminator ends at the first place from the
cursor whose byte is outside the class. -/
theorem advance_eq_iff {bytes : ByteArray} {skip : UInt8 → Bool} {cursor stop : Nat}
    (hterminator : skip terminator = false) :
    advance bytes skip cursor = stop ↔
      cursor ≤ stop ∧ skip (byteAt bytes stop) = false ∧
        ∀ place, cursor ≤ place → place < stop → skip (byteAt bytes place) = true := by
  have hend : skip (byteAt bytes (advance bytes skip cursor)) = false := by
    by_cases hlt : advance bytes skip cursor < bytes.size
    · exact not_skip_advance hlt
    · rw [byteAt_of_size_le (Nat.le_of_not_lt hlt), hterminator]
  constructor
  · rintro rfl
    exact ⟨le_advance bytes skip cursor, hend, fun _ => skip_of_lt_advance⟩
  · rintro ⟨hle, hstop, hskipped⟩
    apply Nat.le_antisymm
    · apply Nat.le_of_not_lt
      intro hlt
      rw [skip_of_lt_advance hle hlt] at hstop
      exact Bool.noConfusion hstop
    · apply Nat.le_of_not_lt
      intro hlt
      rw [hskipped _ (le_advance bytes skip cursor) hlt] at hend
      exact Bool.noConfusion hend

namespace Instruction

/-- A comparison takes the cursor over one byte that fits. -/
theorem move?_char_eq_some_iff {bytes : ByteArray} {cursor next : Nat} {operand : Int} :
    move? bytes cursor ⟨.char, operand⟩ = some next ↔
      Operand.fits operand (byteAt bytes cursor) = true ∧ next = cursor + 1 := by
  rw [move?_char]
  by_cases hfits : Operand.fits operand (byteAt bytes cursor) = true
  · simp [hfits, eq_comm]
  · simp [hfits]

/-- A search takes the cursor to the first byte that fits, with no terminator on
the way. -/
theorem move?_skipTo_eq_some_iff {bytes : ByteArray} {cursor next : Nat}
    {operand : Int} :
    move? bytes cursor ⟨.skipTo, operand⟩ = some next ↔
      cursor ≤ next ∧ Operand.fits operand (byteAt bytes next) = true ∧
        ∀ place, cursor ≤ place → place < next →
          Operand.fits operand (byteAt bytes place) = false ∧
            byteAt bytes place ≠ terminator := by
  let skip := fun byte => !Operand.fits operand byte && byte != terminator
  have hterminator : skip terminator = false := by simp [skip]
  have hskip : ∀ byte, skip byte = true ↔
      Operand.fits operand byte = false ∧ byte ≠ terminator := by
    simp [skip]
  change (if Operand.fits operand (byteAt bytes (advance bytes skip cursor)) = true
    then some (advance bytes skip cursor) else none) = some next ↔ _
  constructor
  · intro hmove
    split at hmove
    · rename_i hfits
      obtain ⟨hle, -, hskipped⟩ :=
        (advance_eq_iff hterminator).1 (Option.some.inj hmove)
      rw [Option.some.inj hmove] at hfits
      exact ⟨hle, hfits, fun place hfrom hto => (hskip _).1 (hskipped place hfrom hto)⟩
    · contradiction
  · rintro ⟨hle, hfits, hskipped⟩
    have hstop : advance bytes skip cursor = next :=
      (advance_eq_iff hterminator).2 ⟨hle, by simp [skip, hfits],
        fun place hfrom hto => (hskip _).2 (hskipped place hfrom hto)⟩
    rw [hstop, if_pos hfits]

/-- A scheme takes the cursor over bytes of a scheme, a colon and all the slashes
behind it. -/
theorem move?_skipScheme_eq_some_iff {bytes : ByteArray} {cursor next : Nat}
    {operand : Int} :
    move? bytes cursor ⟨.skipScheme, operand⟩ = some next ↔
      ∃ colon, cursor ≤ colon ∧ byteAt bytes colon = Byte.colon ∧
        (∀ place, cursor ≤ place → place < colon →
          isSchemeByte (byteAt bytes place) = true) ∧
        colon < next ∧ byteAt bytes next ≠ Byte.slash ∧
        ∀ place, colon < place → place < next → byteAt bytes place = Byte.slash := by
  have hslash : (terminator == Byte.slash) = false := by decide
  change (if byteAt bytes (advance bytes isSchemeByte cursor) = Byte.colon
    then some (advance bytes (· == Byte.slash) (advance bytes isSchemeByte cursor + 1))
    else none) = some next ↔ _
  constructor
  · intro hmove
    split at hmove
    · rename_i hcolon
      obtain ⟨hle, -, hscheme⟩ := (advance_eq_iff not_isSchemeByte_terminator).1
        (Eq.refl (advance bytes isSchemeByte cursor))
      obtain ⟨hlt, hend, hslashes⟩ := (advance_eq_iff hslash).1 (Option.some.inj hmove)
      exact ⟨_, hle, hcolon, hscheme, hlt, by simpa using hend,
        fun place hfrom hto => by simpa using hslashes place hfrom hto⟩
    · contradiction
  · rintro ⟨colon, hle, hcolon, hscheme, hlt, hend, hslashes⟩
    have hstop : advance bytes isSchemeByte cursor = colon :=
      (advance_eq_iff not_isSchemeByte_terminator).2
        ⟨hle, by rw [hcolon]; decide, hscheme⟩
    have hnext : advance bytes (· == Byte.slash) (colon + 1) = next :=
      (advance_eq_iff hslash).2 ⟨hlt, by simpa using hend,
        fun place hfrom hto => by simpa using hslashes place hfrom hto⟩
    rw [hstop, if_pos hcolon, hnext]

end Instruction

end UrlFilter
