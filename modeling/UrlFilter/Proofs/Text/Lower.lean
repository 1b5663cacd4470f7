/-
Small letters.

Making the capitals of a text small is done character by character, and it leaves alone what is
no letter.  On the bytes of the text it is done byte by byte, since the bytes of a character
beyond ASCII are no capitals.  A text that is cut at marks that are no letters falls into the
same pieces, whether it is made small before it is cut or behind.
-/
import UrlFilter.Proofs.Line.Plain
import UrlFilter.Proofs.Text.Ascii

namespace UrlFilter

section Letters

/-- The number of a small letter is that of its capital and thirty-two. -/
theorem toNat_toLower (c : Char) :
    c.toLower.toNat = if 65 ≤ c.toNat ∧ c.toNat ≤ 90 then c.toNat + 32 else c.toNat := by
  have hrange : (c.val ≥ 'A'.val ∧ c.val ≤ 'Z'.val) ↔ 65 ≤ c.toNat ∧ c.toNat ≤ 90 := by
    simp only [ge_iff_le, UInt32.le_iff_toNat_le]
    rfl
  unfold Char.toLower
  by_cases hcapital : 65 ≤ c.toNat ∧ c.toNat ≤ 90
  · rw [dif_pos (hrange.2 hcapital), if_pos hcapital]
    change (c.val + ('a'.val - 'A'.val)).toNat = c.val.toNat + 32
    have hle : c.val.toNat ≤ 90 := hcapital.2
    rw [UInt32.toNat_add]
    simp
    omega
  · rw [dif_neg (mt hrange.1 hcapital), if_neg hcapital]

theorem toLower_of_no_capital {c : Char} (h : ¬ (65 ≤ c.toNat ∧ c.toNat ≤ 90)) :
    c.toLower = c := by
  apply Char.toNat_inj.1
  rw [toNat_toLower, if_neg h]

theorem toLower_toLower (c : Char) : c.toLower.toLower = c.toLower := by
  apply toLower_of_no_capital
  rw [toNat_toLower]
  split <;> omega

/-- What is no letter is the small form of nothing but itself. -/
theorem toLower_eq_iff {mark : Char} (hmark : mark.isAlpha = false) {c : Char} :
    c.toLower = mark ↔ c = mark := by
  have hletter : ¬ (65 ≤ mark.toNat ∧ mark.toNat ≤ 90) ∧
      ¬ (97 ≤ mark.toNat ∧ mark.toNat ≤ 122) := by
    have hranges : (decide ('A'.val ≤ mark.val ∧ mark.val ≤ 'Z'.val) ||
        (decide ('a'.val ≤ mark.val) && decide (mark.val ≤ 'z'.val))) = false := hmark
    simpa [UInt32.le_iff_toNat_le, ← Char.toNat_val] using hranges
  by_cases hcapital : 65 ≤ c.toNat ∧ c.toNat ≤ 90
  · have hsmall := toNat_toLower c
    rw [if_pos hcapital] at hsmall
    constructor
    · rintro rfl
      omega
    · rintro rfl
      exact absurd hcapital hletter.1
  · rw [toLower_of_no_capital hcapital]

theorem toNat_lowerByte (byte : UInt8) :
    (lowerByte byte).toNat =
      if 65 ≤ byte.toNat ∧ byte.toNat ≤ 90 then byte.toNat + 32 else byte.toNat := by
  have hrange : (0x41 ≤ byte ∧ byte ≤ 0x5a) ↔ 65 ≤ byte.toNat ∧ byte.toNat ≤ 90 := by
    simp only [UInt8.le_iff_toNat_le]
    rfl
  rw [lowerByte]
  by_cases hcapital : 65 ≤ byte.toNat ∧ byte.toNat ≤ 90
  · rw [if_pos (hrange.2 hcapital), if_pos hcapital, UInt8.toNat_add]
    simp
    omega
  · rw [if_neg (mt hrange.1 hcapital), if_neg hcapital]

theorem lowerByte_of_no_capital {byte : UInt8} (h : ¬ (65 ≤ byte.toNat ∧ byte.toNat ≤ 90)) :
    lowerByte byte = byte := by
  apply UInt8.toNat_inj.1
  rw [toNat_lowerByte, if_neg h]

theorem lowerByte_lowerByte (byte : UInt8) : lowerByte (lowerByte byte) = lowerByte byte := by
  apply lowerByte_of_no_capital
  rw [toNat_lowerByte]
  split <;> omega

/-- The character of a byte is made small with the byte, since both have one number. -/
theorem toLower_ofUInt8 (byte : UInt8) :
    (Char.ofUInt8 byte).toLower = Char.ofUInt8 (lowerByte byte) := by
  apply Char.toNat_inj.1
  rw [toNat_toLower]
  exact (toNat_lowerByte byte).symm

theorem ofUInt8_injective : Function.Injective Char.ofUInt8 := by
  intro left right h
  exact UInt8.toNat_inj.1 (congrArg Char.toNat h)

/-- What is no letter is the small form of no other byte. -/
theorem lowerByte_eq_iff {mark : UInt8} (hmark : (Char.ofUInt8 mark).isAlpha = false)
    {byte : UInt8} : lowerByte byte = mark ↔ byte = mark := by
  rw [← ofUInt8_injective.eq_iff, ← toLower_ofUInt8, toLower_eq_iff hmark,
    ofUInt8_injective.eq_iff]

/-- The bytes of a character made small are the bytes of the character, each made small. -/
theorem utf8EncodeChar_toLower (c : Char) :
    String.utf8EncodeChar c.toLower = (String.utf8EncodeChar c).map lowerByte := by
  by_cases hbeyond : 0x80 ≤ c.toNat
  · have hbytes : ∀ byte ∈ String.utf8EncodeChar c, lowerByte byte = byte := by
      intro byte hbyte
      have hle := UInt8.le_iff_toNat_le.1 (le_of_mem_utf8EncodeChar hbeyond hbyte)
      apply lowerByte_of_no_capital
      simp at hle
      omega
    rw [toLower_of_no_capital (by omega), List.map_congr_left hbytes, List.map_id']
  · have hvalue : (UInt8.ofNat c.toNat).toNat = c.toNat := by
      rw [UInt8.toNat_ofNat']
      omega
    have hascii : UInt8.ofNat c.toNat < 0x80 := by
      rw [UInt8.lt_iff_toNat_lt, hvalue]
      exact Nat.lt_of_not_le hbeyond
    have hsmall : lowerByte (UInt8.ofNat c.toNat) < 0x80 := by
      rw [UInt8.lt_iff_toNat_lt, toNat_lowerByte, hvalue]
      simp
      split <;> omega
    have hc : c = Char.ofUInt8 (UInt8.ofNat c.toNat) := Char.toNat_inj.1 hvalue.symm
    rw [hc, toLower_ofUInt8, utf8EncodeChar_ofUInt8 hsmall, utf8EncodeChar_ofUInt8 hascii]
    rfl

theorem toList_toLower (text : String) : text.toLower.toList = text.toList.map Char.toLower :=
  String.toList_map

theorem utf8_toLower (text : String) : utf8 text.toLower = (utf8 text).map lowerByte := by
  rw [utf8_eq_flatMap, utf8_eq_flatMap, toList_toLower, List.map_flatMap, List.flatMap_map]
  congr 1
  funext c
  exact utf8EncodeChar_toLower c

end Letters

section Marks

section Fixed

variable {α : Type} [BEq α] [LawfulBEq α] {small : α → α}

/-- A map that sends nothing to some marks but themselves takes a front of such marks off the
same texts. -/
theorem isPrefixOf?_map {front : List α} (hfixed : ∀ mark ∈ front, ∀ a, small a = mark ↔ a = mark)
    (text : List α) :
    front.isPrefixOf? (text.map small) = (front.isPrefixOf? text).map (List.map small) := by
  induction front generalizing text with
  | nil => rfl
  | cons mark front ih =>
      cases text with
      | nil => rfl
      | cons a text =>
          have hmark : (mark == small a) = (mark == a) := by
            rw [Bool.eq_iff_iff, beq_iff_eq, beq_iff_eq, eq_comm, eq_comm (a := mark)]
            exact hfixed mark List.mem_cons_self a
          rw [List.map_cons, List.isPrefixOf?, List.isPrefixOf?, hmark,
            ih fun other hother => hfixed other (List.mem_cons_of_mem mark hother)]
          split <;> rfl

theorem isSuffixOf?_map {back : List α} (hfixed : ∀ mark ∈ back, ∀ a, small a = mark ↔ a = mark)
    (text : List α) :
    back.isSuffixOf? (text.map small) = (back.isSuffixOf? text).map (List.map small) := by
  rw [List.isSuffixOf?, ← List.map_reverse, isPrefixOf?_map, List.isSuffixOf?]
  · cases back.reverse.isPrefixOf? text.reverse with
    | none => rfl
    | some rest => exact congrArg some List.map_reverse.symm
  · exact fun mark hmark => hfixed mark (List.mem_reverse.1 hmark)

theorem splitOn_map {mark : α} (hfixed : ∀ a, small a = mark ↔ a = mark) (text : List α) :
    (text.map small).splitOn mark = (text.splitOn mark).map (List.map small) := by
  induction text with
  | nil => rfl
  | cons a text ih =>
      have hmark : (small a == mark) = (a == mark) := by
        rw [Bool.eq_iff_iff, beq_iff_eq, beq_iff_eq]
        exact hfixed a
      rw [List.map_cons, List.splitOn_cons_eq_if_modifyHead, List.splitOn_cons_eq_if_modifyHead,
        hmark, ih]
      split
      · rfl
      · cases text.splitOn mark <;> rfl

end Fixed

theorem isPrefixOf?_map_toLower {front : List Char} (hmarks : front.any Char.isAlpha = false)
    (text : List Char) :
    front.isPrefixOf? (text.map Char.toLower) =
      (front.isPrefixOf? text).map (List.map Char.toLower) := by
  apply isPrefixOf?_map
  intro mark hmark c
  exact toLower_eq_iff (Bool.eq_false_iff.2 (List.any_eq_false.1 hmarks mark hmark))

theorem isSuffixOf?_map_toLower {back : List Char} (hmarks : back.any Char.isAlpha = false)
    (text : List Char) :
    back.isSuffixOf? (text.map Char.toLower) =
      (back.isSuffixOf? text).map (List.map Char.toLower) := by
  apply isSuffixOf?_map
  intro mark hmark c
  exact toLower_eq_iff (Bool.eq_false_iff.2 (List.any_eq_false.1 hmarks mark hmark))

theorem isPrefixOf?_map_lowerByte {front : List UInt8}
    (hmarks : (front.map Char.ofUInt8).any Char.isAlpha = false) (text : List UInt8) :
    front.isPrefixOf? (text.map lowerByte) =
      (front.isPrefixOf? text).map (List.map lowerByte) := by
  apply isPrefixOf?_map
  intro mark hmark byte
  apply lowerByte_eq_iff
  exact Bool.eq_false_iff.2 (List.any_eq_false.1 hmarks _ (List.mem_map_of_mem hmark))

end Marks

end UrlFilter
