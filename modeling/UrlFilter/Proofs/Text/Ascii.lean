/-
Texts and their bytes.

A character of ASCII is encoded as the one byte of its number, and every other
character as bytes beyond ASCII.  So a text whose bytes are all ASCII has one
character for each byte, and the byte of an ASCII character stands in a text only
where the character stands.
-/
import UrlFilter.Text.Bytes

namespace UrlFilter

/-- A byte of ASCII is the whole encoding of its character. -/
theorem utf8EncodeChar_ofUInt8 {byte : UInt8} (hascii : byte < 0x80) :
    String.utf8EncodeChar (Char.ofUInt8 byte) = [byte] := by
  have hlt : byte.toNat < 0x80 := UInt8.lt_iff_toNat_lt.1 hascii
  have hval : (Char.ofUInt8 byte).val.toNat = byte.toNat := rfl
  have hle : (Char.ofUInt8 byte).val.toNat ≤ 0x7f := by omega
  simp only [String.utf8EncodeChar]
  rw [if_pos hle, hval, UInt8.ofNat_toNat]

/-- The characters of some bytes of ASCII are encoded as these bytes. -/
theorem flatMap_utf8EncodeChar_map_ofUInt8 {bytes : List UInt8}
    (hascii : ∀ byte ∈ bytes, byte < 0x80) :
    (bytes.map Char.ofUInt8).flatMap String.utf8EncodeChar = bytes := by
  induction bytes with
  | nil => rfl
  | cons byte bytes ih =>
      have hbehind := ih fun other hother => hascii other (List.mem_cons_of_mem byte hother)
      rw [List.map_cons, List.flatMap_cons, hbehind,
        utf8EncodeChar_ofUInt8 (hascii byte List.mem_cons_self), List.singleton_append]

/-- The encoding of a character beyond ASCII stays beyond ASCII. -/
theorem le_of_mem_utf8EncodeChar {c : Char} {byte : UInt8}
    (hbeyond : 0x80 ≤ c.val.toNat) (hbyte : byte ∈ String.utf8EncodeChar c) :
    0x80 ≤ byte := by
  have hnot : ¬ c.val.toNat ≤ 0x7f := by omega
  rw [UInt8.le_iff_toNat_le]
  simp only [String.utf8EncodeChar, if_neg hnot] at hbyte
  split at hbyte
  · simp only [List.mem_cons, List.not_mem_nil, or_false] at hbyte
    rcases hbyte with rfl | rfl <;> simp <;> omega
  · split at hbyte
    · simp only [List.mem_cons, List.not_mem_nil, or_false] at hbyte
      rcases hbyte with rfl | rfl | rfl <;> simp <;> omega
    · simp only [List.mem_cons, List.not_mem_nil, or_false] at hbyte
      rcases hbyte with rfl | rfl | rfl | rfl <;> simp <;> omega

/-- A character whose encoding contains a byte of ASCII is the character of that
byte. -/
theorem eq_ofUInt8_of_mem_utf8EncodeChar {c : Char} {byte : UInt8}
    (hascii : byte < 0x80) (hbyte : byte ∈ String.utf8EncodeChar c) :
    c = Char.ofUInt8 byte := by
  have hlt : byte.toNat < 0x80 := UInt8.lt_iff_toNat_lt.1 hascii
  by_cases hbeyond : 0x80 ≤ c.val.toNat
  · have hge := UInt8.le_iff_toNat_le.1 (le_of_mem_utf8EncodeChar hbeyond hbyte)
    simp at hge
    omega
  · have hle : c.val.toNat ≤ 0x7f := by omega
    simp only [String.utf8EncodeChar, if_pos hle, List.mem_singleton] at hbyte
    apply Char.ext
    apply UInt32.toNat_inj.1
    change c.val.toNat = byte.toNat
    rw [hbyte, UInt8.toNat_ofNat']
    omega

/-- A text of ASCII bytes has one character for each byte. -/
theorem toList_eq_map_of_ascii {text : String}
    (hascii : ∀ byte ∈ utf8 text, byte < 0x80) :
    text.toList = (utf8 text).map Char.ofUInt8 := by
  rw [utf8_eq_flatMap] at hascii ⊢
  generalize text.toList = characters at hascii ⊢
  induction characters with
  | nil => rfl
  | cons c rest ih =>
      have hne : String.utf8EncodeChar c ≠ [] := String.utf8EncodeChar_ne_nil
      obtain ⟨byte, hbyte⟩ := List.exists_mem_of_ne_nil _ hne
      simp only [List.mem_flatMap] at hascii
      have hbyteAscii : byte < 0x80 := hascii byte ⟨c, List.mem_cons_self, hbyte⟩
      have hc := eq_ofUInt8_of_mem_utf8EncodeChar hbyteAscii hbyte
      rw [hc, List.flatMap_cons, utf8EncodeChar_ofUInt8 hbyteAscii]
      simp only [List.singleton_append, List.map_cons, List.cons.injEq, true_and]
      apply ih
      intro other hother
      simp only [List.mem_flatMap] at hother
      obtain ⟨place, hplace, hother⟩ := hother
      exact hascii other ⟨place, List.mem_cons_of_mem c hplace, hother⟩

/-- The same read the other way round. -/
theorem utf8_eq_map_of_ascii {text : String}
    (hascii : ∀ byte ∈ utf8 text, byte < 0x80) :
    utf8 text = text.toList.map Char.toUInt8 := by
  have hback : ∀ byte : UInt8, (Char.ofUInt8 byte).toUInt8 = byte := by
    intro byte
    apply UInt8.toNat_inj.1
    change byte.toNat % 256 = byte.toNat
    exact Nat.mod_eq_of_lt byte.toNat_lt
  rw [toList_eq_map_of_ascii hascii, List.map_map]
  simp [Function.comp_def, hback]

/-- A byte of ASCII stands in the bytes of a text exactly if its character stands
in the text. -/
theorem mem_utf8_iff {text : String} {byte : UInt8} (hascii : byte < 0x80) :
    byte ∈ utf8 text ↔ Char.ofUInt8 byte ∈ text.toList := by
  rw [utf8_eq_flatMap, List.mem_flatMap]
  constructor
  · rintro ⟨c, hc, hbyte⟩
    exact eq_ofUInt8_of_mem_utf8EncodeChar hascii hbyte ▸ hc
  · intro hmem
    exact ⟨_, hmem, by simp [utf8EncodeChar_ofUInt8 hascii]⟩

end UrlFilter
