/-
Runs as cursors.

What an instruction asks for can be said without a search: by the byte under the cursor, or by
the least place from the cursor onwards where some byte stands.  A run succeeds exactly if there
are cursors, from its start on, that every instruction in front of the first accepting one leads
from one to the next.  Nothing is asked of the instructions, so this holds of malformed ones too.

The cursors are words, as in the machine.  Where the words have room for the run, they may as well
be numbers.
-/
import UrlFilter.Proofs.Machine.Word
import Mathlib.Data.Set.Basic
import Mathlib.Order.Bounds.Defs

namespace UrlFilter

/-- What takes a cursor to the next one under an instruction.  The byte under a cursor is `read`,
with terminators behind the end of the text. -/
inductive Leads {Cursor : Type} [LE Cursor] [LT Cursor] [Add Cursor] [OfNat Cursor 1]
    (read : Cursor → UInt8) : Instruction → Cursor → Cursor → Prop
  /-- Some separator is under the cursor, and is stepped over. -/
  | separator {cursor : Cursor} : isSeparator (read cursor) = true →
      Leads read ⟨.char, Operand.separator⟩ cursor (cursor + 1)
  /-- The byte of the operand is under the cursor, and is stepped over. -/
  | byte {operand : Int} {cursor : Cursor} : operand ≠ Operand.separator →
      (read cursor).toNat = operand → Leads read ⟨.char, operand⟩ cursor (cursor + 1)
  /-- The next cursor is at the nearest separator. -/
  | nearestSeparator {cursor next : Cursor} :
      IsLeast { place | cursor ≤ place ∧ isSeparator (read place) = true } next →
      Leads read ⟨.skipTo, Operand.separator⟩ cursor next
  /-- The next cursor is at the nearest byte of the operand, with no terminator before it. -/
  | nearestByte {operand : Int} {cursor next : Cursor} : operand ≠ Operand.separator →
      IsLeast { place | cursor ≤ place ∧ (read place).toNat = operand } next →
      (∀ place, cursor ≤ place → place < next → read place ≠ 0) →
      Leads read ⟨.skipTo, operand⟩ cursor next
  /-- A colon stands behind bytes of a scheme, and the next cursor is at the nearest byte behind
  the colon that is no slash. -/
  | scheme {operand : Int} {cursor colon next : Cursor} :
      cursor ≤ colon → read colon = Byte.colon →
      (∀ place, cursor ≤ place → place < colon → isSchemeByte (read place) = true) →
      IsLeast { place | colon < place ∧ read place ≠ Byte.slash } next →
      Leads read ⟨.skipScheme, operand⟩ cursor next

/-- The byte under a cursor in a word. -/
def byteUnder (bytes : ByteArray) (cursor : UInt64) : UInt8 :=
  byteAt bytes cursor.toNat

/-- The number of the instructions in front of the first accepting one, and of all of them if
there is none. -/
def stepCount (instructions : List Instruction) : Nat :=
  instructions.findIdx fun instruction => instruction.opcode = .accept

/-- Every instruction in front of the first accepting one leads from its cursor to the next. -/
def Follow {Cursor : Type} (leads : Instruction → Cursor → Cursor → Prop)
    (instructions : List Instruction) (cursors : Nat → Cursor) : Prop :=
  ∀ place instruction, place < stepCount instructions →
    instructions[place]? = some instruction →
      leads instruction (cursors place) (cursors (place + 1))

/-- Cursors with one more in front. -/
def cursorCons {Cursor : Type} (first : Cursor) (cursors : Nat → Cursor) : Nat → Cursor
  | 0 => first
  | place + 1 => cursors place

/-- A least place is a place with none before it. -/
theorem isLeast_place_iff {p : Nat → Prop} {start next : Nat} :
    IsLeast { place | start ≤ place ∧ p place } next ↔
      start ≤ next ∧ p next ∧ ∀ place, start ≤ place → place < next → ¬ p place := by
  constructor
  · rintro ⟨⟨hle, hnext⟩, hleast⟩
    refine ⟨hle, hnext, fun place hfrom hbefore hplace => ?_⟩
    exact Nat.not_le_of_lt hbefore (hleast ⟨hfrom, hplace⟩)
  · rintro ⟨hle, hnext, hbefore⟩
    refine ⟨⟨hle, hnext⟩, fun place hplace => ?_⟩
    exact Nat.le_of_not_lt fun hlt => hbefore place hplace.1 hlt hplace.2

theorem Operand.fits_iff_of_ne {operand : Int} (hoperand : operand ≠ separator) {byte : UInt8} :
    fits operand byte = true ↔ byte.toNat = operand := by
  rw [fits, if_neg hoperand, decide_eq_true_eq]
  exact eq_comm

namespace Leads

theorem char_iff {Cursor : Type} [LE Cursor] [LT Cursor] [Add Cursor] [OfNat Cursor 1]
    {read : Cursor → UInt8} {operand : Int} {cursor next : Cursor} :
    Leads read ⟨.char, operand⟩ cursor next ↔
      Operand.fits operand (read cursor) = true ∧ next = cursor + 1 := by
  constructor
  · intro hleads
    cases hleads with
    | separator hseparator =>
        rw [Operand.fits_separator]
        exact ⟨hseparator, rfl⟩
    | byte hoperand hbyte => exact ⟨(Operand.fits_iff_of_ne hoperand).2 hbyte, rfl⟩
  · rintro ⟨hfits, rfl⟩
    by_cases hoperand : operand = Operand.separator
    · subst hoperand
      rw [Operand.fits_separator] at hfits
      exact .separator hfits
    · exact .byte hoperand ((Operand.fits_iff_of_ne hoperand).1 hfits)

variable {bytes : ByteArray} {operand : Int} {cursor next : Nat}

/-- A search for a separator need not look out for terminators, since these are separators. -/
theorem skipTo_iff : Leads (byteAt bytes) ⟨.skipTo, operand⟩ cursor next ↔
    cursor ≤ next ∧ Operand.fits operand (byteAt bytes next) = true ∧
      ∀ place, cursor ≤ place → place < next →
        Operand.fits operand (byteAt bytes place) = false ∧
          byteAt bytes place ≠ terminator := by
  constructor
  · intro hleads
    cases hleads with
    | nearestSeparator hleast =>
        obtain ⟨hle, hseparator, hbefore⟩ := isLeast_place_iff.1 hleast
        refine ⟨hle, by rwa [Operand.fits_separator], fun place hfrom hto => ⟨?_, ?_⟩⟩
        · rw [Operand.fits_separator, Bool.eq_false_iff]
          exact hbefore place hfrom hto
        · intro hterminator
          apply hbefore place hfrom hto
          rw [hterminator, isSeparator_terminator]
    | nearestByte hoperand hleast hterminator =>
        obtain ⟨hle, hbyte, hbefore⟩ := isLeast_place_iff.1 hleast
        refine ⟨hle, (Operand.fits_iff_of_ne hoperand).2 hbyte, fun place hfrom hto => ⟨?_, ?_⟩⟩
        · rw [Bool.eq_false_iff, ne_eq, Operand.fits_iff_of_ne hoperand]
          exact hbefore place hfrom hto
        · exact hterminator place hfrom hto
  · rintro ⟨hle, hfits, hbefore⟩
    by_cases hoperand : operand = Operand.separator
    · subst hoperand
      simp only [Operand.fits_separator] at hfits hbefore
      refine .nearestSeparator (isLeast_place_iff.2 ⟨hle, hfits, fun place hfrom hto => ?_⟩)
      exact Bool.eq_false_iff.1 (hbefore place hfrom hto).1
    · simp only [Operand.fits_iff_of_ne hoperand, Bool.eq_false_iff, ne_eq] at hfits hbefore
      refine .nearestByte hoperand (isLeast_place_iff.2 ⟨hle, hfits, fun place hfrom hto => ?_⟩)
        fun place hfrom hto => ?_
      · exact (hbefore place hfrom hto).1
      · exact (hbefore place hfrom hto).2

theorem skipScheme_iff : Leads (byteAt bytes) ⟨.skipScheme, operand⟩ cursor next ↔
    ∃ colon, cursor ≤ colon ∧ byteAt bytes colon = Byte.colon ∧
      (∀ place, cursor ≤ place → place < colon →
        isSchemeByte (byteAt bytes place) = true) ∧
      colon < next ∧ byteAt bytes next ≠ Byte.slash ∧
      ∀ place, colon < place → place < next → byteAt bytes place = Byte.slash := by
  constructor
  · intro hleads
    cases hleads with
    | @scheme _ _ colon _ hle hcolon hscheme hleast =>
        obtain ⟨hlt, hend, hslashes⟩ := isLeast_place_iff.1 hleast
        refine ⟨colon, hle, hcolon, hscheme, hlt, hend, ?_⟩
        exact fun place hfrom hto => Decidable.not_not.1 (hslashes place hfrom hto)
  · rintro ⟨colon, hle, hcolon, hscheme, hlt, hend, hslashes⟩
    refine .scheme hle hcolon hscheme
      (isLeast_place_iff.2 ⟨hlt, hend, fun place hfrom hto => ?_⟩)
    exact fun hother => hother (hslashes place hfrom hto)

end Leads

/-- An instruction that does not accept leads where the machine moves. -/
theorem leads_iff_move? {bytes : ByteArray} {instruction : Instruction} {cursor next : Nat}
    (h : instruction.opcode ≠ .accept) :
    Leads (byteAt bytes) instruction cursor next ↔ instruction.move? bytes cursor = some next := by
  obtain ⟨opcode, operand⟩ := instruction
  cases opcode with
  | char => rw [Leads.char_iff, Instruction.move?_char_eq_some_iff]
  | skipTo => rw [Leads.skipTo_iff, Instruction.move?_skipTo_eq_some_iff]
  | skipScheme => rw [Leads.skipScheme_iff, Instruction.move?_skipScheme_eq_some_iff]
  | accept => exact absurd rfl h

section Step

variable {instruction : Instruction} (rest : List Instruction)

theorem stepCount_cons_of_accept (h : instruction.opcode = .accept) :
    stepCount (instruction :: rest) = 0 := by
  simp [stepCount, List.findIdx_cons, h]

theorem stepCount_cons_of_ne (h : instruction.opcode ≠ .accept) :
    stepCount (instruction :: rest) = stepCount rest + 1 := by
  simp [stepCount, List.findIdx_cons, h]

/-- One instruction takes one cursor from the front. -/
theorem follow_cons_iff {Cursor : Type} {leads : Instruction → Cursor → Cursor → Prop}
    (h : instruction.opcode ≠ .accept) {cursors : Nat → Cursor} :
    Follow leads (instruction :: rest) cursors ↔
      leads instruction (cursors 0) (cursors 1) ∧
        Follow leads rest fun place => cursors (place + 1) := by
  rw [Follow, stepCount_cons_of_ne rest h]
  constructor
  · intro hfollow
    refine ⟨hfollow 0 instruction (Nat.succ_pos _) rfl, fun place other hplace hother => ?_⟩
    exact hfollow (place + 1) other (Nat.succ_lt_succ hplace) hother
  · rintro ⟨hfirst, hfollow⟩ place other hplace hother
    cases place with
    | zero =>
        cases hother
        exact hfirst
    | succ place => exact hfollow place other (Nat.lt_of_succ_lt_succ hplace) hother

end Step

/-- Whatever answers as a run does, instruction by instruction, succeeds exactly where cursors
follow the instructions. -/
theorem iff_exists_cursors {Cursor : Type} {leads : Instruction → Cursor → Cursor → Prop}
    (Succeeds : List Instruction → Cursor → Prop) (hnil : ∀ cursor, Succeeds [] cursor)
    (haccept : ∀ {instruction} rest cursor, instruction.opcode = .accept →
      Succeeds (instruction :: rest) cursor)
    (hcons : ∀ {instruction} rest cursor, instruction.opcode ≠ .accept →
      (Succeeds (instruction :: rest) cursor ↔
        ∃ next, leads instruction cursor next ∧ Succeeds rest next))
    (instructions : List Instruction) (start : Cursor) :
    Succeeds instructions start ↔
      ∃ cursors : Nat → Cursor, cursors 0 = start ∧ Follow leads instructions cursors := by
  induction instructions generalizing start with
  | nil =>
      refine iff_of_true (hnil start) ⟨fun _ => start, rfl, fun place _ hplace => ?_⟩
      exact absurd hplace (Nat.not_lt_zero place)
  | cons instruction rest ih =>
      by_cases hopcode : instruction.opcode = .accept
      · refine iff_of_true (haccept rest start hopcode) ⟨fun _ => start, rfl, ?_⟩
        intro place _ hplace
        rw [stepCount_cons_of_accept rest hopcode] at hplace
        exact absurd hplace (Nat.not_lt_zero place)
      · rw [hcons rest start hopcode]
        constructor
        · rintro ⟨next, hleads, hrest⟩
          obtain ⟨cursors, rfl, hfollow⟩ := (ih next).1 hrest
          exact ⟨cursorCons start cursors, rfl,
            (follow_cons_iff rest hopcode).2 ⟨hleads, hfollow⟩⟩
        · rintro ⟨cursors, rfl, hfollow⟩
          obtain ⟨hfirst, hothers⟩ := (follow_cons_iff rest hopcode).1 hfollow
          exact ⟨cursors 1, hfirst, (ih (cursors 1)).2 ⟨_, rfl, hothers⟩⟩

/-- A run over numbers follows numbers. -/
theorem run_iff_follow (bytes : ByteArray) (instructions : List Instruction) (start : Nat) :
    run bytes instructions start = true ↔
      ∃ cursors : Nat → Nat, cursors 0 = start ∧
        Follow (Leads (byteAt bytes)) instructions cursors := by
  refine iff_exists_cursors (fun instructions cursor => run bytes instructions cursor = true)
    (run_nil bytes) ?_ ?_ instructions start
  · intro instruction rest cursor haccept
    rw [run, if_pos haccept]
  · intro instruction rest cursor hopcode
    simp only [run_cons_iff hopcode, leads_iff_move? hopcode]

section Word

/-- What holds of the words between two words holds of the places between them. -/
theorem forall_word_iff {p : Nat → Prop} {q : UInt64 → Prop}
    (h : ∀ place, q place ↔ p place.toNat) {start stop : UInt64} :
    (∀ place, start ≤ place → place < stop → q place) ↔
      ∀ place, start.toNat ≤ place → place < stop.toNat → p place := by
  constructor
  · intro hwords place hfrom hto
    have htoNat : (UInt64.ofNat place).toNat = place :=
      toNat_ofNat_of_lt (hto.trans stop.toNat_lt)
    have hword : q (UInt64.ofNat place) := by
      apply hwords
      · rwa [UInt64.le_iff_toNat_le, htoNat]
      · rwa [UInt64.lt_iff_toNat_lt, htoNat]
    rwa [h, htoNat] at hword
  · intro hplaces place hfrom hto
    exact (h place).2 (hplaces _ (UInt64.le_iff_toNat_le.1 hfrom) (UInt64.lt_iff_toNat_lt.1 hto))

/-- The least word of a kind is at the least place of this kind. -/
theorem isLeast_word_iff {p : Nat → Prop} {q : UInt64 → Prop}
    (h : ∀ place, q place ↔ p place.toNat) {next : UInt64} :
    IsLeast { place | q place } next ↔ IsLeast { place | p place } next.toNat := by
  constructor
  · rintro ⟨hnext, hleast⟩
    refine ⟨(h next).1 hnext, fun place hplace => ?_⟩
    rcases Nat.lt_or_ge place (2 ^ 64) with hword | hword
    · have htoNat : (UInt64.ofNat place).toNat = place := toNat_ofNat_of_lt hword
      have hle : next ≤ UInt64.ofNat place := hleast ((h _).2 (htoNat.symm ▸ hplace))
      rwa [UInt64.le_iff_toNat_le, htoNat] at hle
    · exact (Nat.le_of_lt next.toNat_lt).trans hword
  · rintro ⟨hnext, hleast⟩
    refine ⟨(h next).2 hnext, fun place hplace => ?_⟩
    exact UInt64.le_iff_toNat_le.2 (hleast ((h place).1 hplace))

/-- What searches leads from word to word as it leads from number to number. -/
theorem leads_word_iff_of_ne {bytes : ByteArray} {instruction : Instruction}
    (hopcode : instruction.opcode ≠ .char) {cursor next : UInt64} :
    Leads (byteUnder bytes) instruction cursor next ↔
      Leads (byteAt bytes) instruction cursor.toNat next.toNat := by
  constructor
  · intro hleads
    cases hleads with
    | separator => exact absurd rfl hopcode
    | byte => exact absurd rfl hopcode
    | nearestSeparator hleast =>
        exact .nearestSeparator ((isLeast_word_iff fun _ => Iff.rfl).1 hleast)
    | nearestByte hoperand hleast hbefore =>
        exact .nearestByte hoperand ((isLeast_word_iff fun _ => Iff.rfl).1 hleast)
          ((forall_word_iff fun _ => Iff.rfl).1 hbefore)
    | scheme hle hcolon hbefore hleast =>
        exact .scheme (UInt64.le_iff_toNat_le.1 hle) hcolon
          ((forall_word_iff fun _ => Iff.rfl).1 hbefore)
          ((isLeast_word_iff fun _ => Iff.rfl).1 hleast)
  · intro hleads
    generalize hnext : next.toNat = place at hleads
    cases hleads with
    | separator => exact absurd rfl hopcode
    | byte => exact absurd rfl hopcode
    | nearestSeparator hleast =>
        subst hnext
        exact .nearestSeparator ((isLeast_word_iff fun _ => Iff.rfl).2 hleast)
    | nearestByte hoperand hleast hbefore =>
        subst hnext
        exact .nearestByte hoperand ((isLeast_word_iff fun _ => Iff.rfl).2 hleast)
          ((forall_word_iff fun _ => Iff.rfl).2 hbefore)
    | @scheme _ _ colon _ hle hcolon hbefore hleast =>
        subst hnext
        -- The colon stands in front of the next cursor, so it is a word.
        obtain ⟨colon, rfl⟩ : ∃ word : UInt64, word.toNat = colon :=
          ⟨.ofNat colon, toNat_ofNat_of_lt (hleast.1.1.trans next.toNat_lt)⟩
        exact .scheme (UInt64.le_iff_toNat_le.2 hle) hcolon
          ((forall_word_iff fun _ => Iff.rfl).2 hbefore)
          ((isLeast_word_iff fun _ => Iff.rfl).2 hleast)

/-- An instruction that does not accept leads from a word where the machine moves from there. -/
theorem leads_word_iff_move? {bytes : ByteArray} (hsize : bytes.size < 2 ^ 63)
    {instruction : Instruction} (h : instruction.opcode ≠ .accept) {cursor next : UInt64} :
    Leads (byteUnder bytes) instruction cursor next ↔
      ∃ place, instruction.move? bytes cursor.toNat = some place ∧
        UInt64.ofNat place = next := by
  by_cases hopcode : instruction.opcode = .char
  · obtain ⟨opcode, operand⟩ := instruction
    obtain rfl : opcode = .char := hopcode
    have hsucc : UInt64.ofNat (cursor.toNat + 1) = cursor + 1 := by
      rw [UInt64.ofNat_add, UInt64.ofNat_toNat]
      rfl
    simp only [Leads.char_iff, Instruction.move?_char_eq_some_iff]
    constructor
    · rintro ⟨hfits, rfl⟩
      exact ⟨_, ⟨hfits, rfl⟩, hsucc⟩
    · rintro ⟨place, ⟨hfits, rfl⟩, rfl⟩
      exact ⟨hfits, hsucc⟩
  · rw [leads_word_iff_of_ne hopcode, leads_iff_move? h]
    constructor
    · exact fun hmove => ⟨next.toNat, hmove, UInt64.ofNat_toNat⟩
    · rintro ⟨place, hmove, rfl⟩
      have hle : place ≤ max cursor.toNat bytes.size :=
        Instruction.move?_le_of_ne hopcode (Nat.le_max_right _ _) (Nat.le_max_left _ _) hmove
      have hcursor := cursor.toNat_lt
      rwa [toNat_ofNat_of_lt (by omega)]

/-- A run over words follows words. -/
theorem runWord_iff_follow {bytes : ByteArray} (hsize : bytes.size < 2 ^ 63)
    (instructions : List Instruction) (start : UInt64) :
    runWord bytes instructions start = true ↔
      ∃ cursors : Nat → UInt64, cursors 0 = start ∧
        Follow (Leads (byteUnder bytes)) instructions cursors := by
  refine iff_exists_cursors (fun instructions cursor => runWord bytes instructions cursor = true)
    (fun _ => rfl) ?_ ?_ instructions start
  · intro instruction rest cursor haccept
    rw [runWord, if_pos haccept]
  · intro instruction rest cursor hopcode
    simp only [leads_word_iff_move? hsize hopcode]
    rw [runWord, if_neg hopcode]
    cases hmove : instruction.move? bytes cursor.toNat with
    | none => simp
    | some next => simp

end Word

/-- A run succeeds if and only if there are cursors, from its start on, that every instruction in
front of the first accepting one leads from one to the next.  The instructions are any.  The
cursors are words, and where the words have room for the run, they may as well be numbers. -/
theorem run_iff_exists_cursors {bytes : ByteArray} (hsize : bytes.size < 2 ^ 63)
    (instructions : List Instruction) (start : UInt64) :
    (runWord bytes instructions start = true ↔
      ∃ cursors : Nat → UInt64, cursors 0 = start ∧
        Follow (Leads (byteUnder bytes)) instructions cursors) ∧
    (HasRoom bytes instructions start →
      (runWord bytes instructions start = true ↔
        ∃ cursors : Nat → Nat, cursors 0 = start.toNat ∧
          Follow (Leads (byteAt bytes)) instructions cursors)) := by
  refine ⟨runWord_iff_follow hsize instructions start, fun hroom => ?_⟩
  rw [runWord_eq_run hroom]
  exact run_iff_follow bytes instructions start.toNat

/-- A separator and an `a`, on the text `a`.  From the greatest word the first is the terminator and
the second at the word zero, and no numbers follow them.  From zero there is room, and the first is
no separator. -/
theorem cursors_from_greatest_word :
    let instructions : List Instruction :=
      [⟨.char, Operand.separator⟩, ⟨.char, 0x61⟩, Instruction.accept]
    let bytes : ByteArray := ⟨#[0x61]⟩
    let greatest : UInt64 := 0xffffffffffffffff
    (∃ cursors : Nat → UInt64, cursors 0 = greatest ∧
      Follow (Leads (byteUnder bytes)) instructions cursors) ∧
    ¬ HasRoom bytes instructions greatest ∧
    (¬ ∃ cursors : Nat → Nat, cursors 0 = greatest.toNat ∧
      Follow (Leads (byteAt bytes)) instructions cursors) ∧
    HasRoom bytes instructions 0 ∧
    ¬ ∃ cursors : Nat → Nat, cursors 0 = 0 ∧
      Follow (Leads (byteAt bytes)) instructions cursors := by
  intro instructions bytes greatest
  have hsize : bytes.size < 2 ^ 63 := by decide
  have hroom : HasRoom bytes instructions 0 := by
    unfold HasRoom
    decide
  refine ⟨?_, ?_, ?_, hroom, ?_⟩
  · exact (run_iff_exists_cursors hsize instructions greatest).1.1 (by decide)
  · unfold HasRoom
    decide
  · rw [← run_iff_follow, Bool.not_eq_true]
    decide
  · intro hcursors
    have hrun := ((run_iff_exists_cursors hsize instructions 0).2 hroom).2 hcursors
    exact absurd hrun (by decide)

end UrlFilter
