/-
Texts inside texts.

A search compares bytes, and a text stands inside another one as characters.  Both come to
the same: the encoding of a character begins with a first byte and goes on without another
one, so the bytes of a text stand only where its characters do.
-/
import UrlFilter.Proofs.Text.Ascii

namespace UrlFilter

/-- The bytes at the front of a text say which character it begins with. -/
theorem eq_of_utf8EncodeChar_append_eq {c d : Char} {left right : List UInt8}
    (h : String.utf8EncodeChar c ++ left = String.utf8EncodeChar d ++ right) : c = d := by
  have hdecode : ∀ (c : Char) (rest : List UInt8),
      (String.utf8EncodeChar c ++ rest).toByteArray.utf8DecodeChar? 0 = some c := by
    intro c rest
    rw [List.toByteArray_append]
    exact ByteArray.utf8DecodeChar?_utf8EncodeChar_append
  have hc := hdecode c left
  rw [h, hdecode d right] at hc
  exact (Option.some.inj hc).symm

theorem flatMap_utf8EncodeChar_prefix_iff {part text : List Char} :
    part.flatMap String.utf8EncodeChar <+: text.flatMap String.utf8EncodeChar ↔
      part <+: text := by
  induction part generalizing text with
  | nil => simp only [List.flatMap_nil, List.nil_prefix]
  | cons c part ih =>
      cases text with
      | nil => simp
      | cons d text =>
          rw [List.flatMap_cons, List.flatMap_cons, List.cons_prefix_cons]
          constructor
          · rintro ⟨rest, hrest⟩
            rw [List.append_assoc] at hrest
            obtain rfl := eq_of_utf8EncodeChar_append_eq hrest
            exact ⟨rfl, ih.1 ⟨rest, List.append_cancel_left hrest⟩⟩
          · rintro ⟨rfl, hpart⟩
            exact (List.prefix_append_right_inj _).2 (ih.2 hpart)

/-- A place with nothing but ASCII in front of it lies between two characters. -/
theorem isValid_of_ascii_take {text : String} {offset : Nat} (hle : offset ≤ (utf8 text).length)
    (hascii : ∀ byte ∈ (utf8 text).take offset, byte < 0x80) :
    String.Pos.Raw.IsValid text ⟨offset⟩ := by
  have hfront := flatMap_utf8EncodeChar_map_ofUInt8 hascii
  have hprefix : ((utf8 text).take offset).map Char.ofUInt8 <+: text.toList := by
    rw [← flatMap_utf8EncodeChar_prefix_iff, hfront, ← utf8_eq_flatMap]
    exact List.take_prefix offset (utf8 text)
  obtain ⟨behind, hbehind⟩ := hprefix
  let front := String.ofList (((utf8 text).take offset).map Char.ofUInt8)
  have hlength : (utf8 front).length = offset := by
    rw [utf8_eq_flatMap, String.toList_ofList, hfront, List.length_take, Nat.min_eq_left hle]
  have htext : text = front ++ String.ofList behind := by
    rw [← String.ofList_append, hbehind, String.ofList_toList]
  exact String.Pos.Raw.isValid_iff_exists_append.2
    ⟨front, _, htext, congrArg String.Pos.Raw.mk hlength.symm⟩

/-- What follows some bytes of a character begins with a first byte only if these are none
of its bytes or all of them. -/
theorem eq_nil_of_utf8EncodeChar_eq_append {c d : Char} {front rest left right : List UInt8}
    (hd : String.utf8EncodeChar d = front ++ rest)
    (hrest : String.utf8EncodeChar c ++ left = rest ++ right) : front = [] ∨ rest = [] := by
  cases rest with
  | nil => exact Or.inr rfl
  | cons first others =>
      left
      have hplace : front.length < (String.utf8EncodeChar d).length := by
        rw [hd, List.length_append, List.length_cons]
        omega
      have hdfirst : (String.utf8EncodeChar d)[front.length] = first := by
        simp only [hd, List.getElem_append_right (Nat.le_refl _), Nat.sub_self,
          List.getElem_cons_zero]
      have hpos : 0 < (String.utf8EncodeChar c).length :=
        List.length_pos_iff.2 String.utf8EncodeChar_ne_nil
      have hcfirst : (String.utf8EncodeChar c)[0]? = some first := by
        rw [← List.getElem?_append_left hpos, hrest]
        rfl
      have hisFirst := UInt8.isUTF8FirstByte_getElem_zero_utf8EncodeChar (c := c)
      rw [(List.getElem?_eq_some_iff.1 hcfirst).2, ← hdfirst,
        UInt8.isUTF8FirstByte_getElem_utf8EncodeChar] at hisFirst
      exact List.eq_nil_of_length_eq_zero hisFirst

theorem flatMap_utf8EncodeChar_infix_iff {part text : List Char} :
    part.flatMap String.utf8EncodeChar <:+: text.flatMap String.utf8EncodeChar ↔
      part <:+: text := by
  induction text with
  | nil =>
      rw [List.flatMap_nil, List.infix_nil, List.infix_nil, ← List.prefix_nil,
        ← List.prefix_nil]
      exact @flatMap_utf8EncodeChar_prefix_iff part []
  | cons d text ih =>
      rw [List.infix_cons_iff, ← ih, ← flatMap_utf8EncodeChar_prefix_iff, List.flatMap_cons]
      constructor
      · rintro ⟨before, behind, h⟩
        cases part with
        | nil => exact Or.inl List.nil_prefix
        | cons c part =>
            rw [List.append_assoc, List.append_eq_append_iff] at h
            rcases h with ⟨rest, hd, hrest⟩ | ⟨rest, rfl, htext⟩
            · -- The part begins within the bytes of the first character.
              rw [List.flatMap_cons, List.append_assoc] at hrest
              rcases eq_nil_of_utf8EncodeChar_eq_append hd hrest with rfl | rfl
              · left
                rw [hd, List.nil_append, ← hrest, ← List.append_assoc]
                exact List.prefix_append _ _
              · right
                rw [List.nil_append, ← List.append_assoc] at hrest
                rw [← hrest]
                exact (List.prefix_append _ _).isInfix
            · -- It begins behind them.
              right
              rw [htext, ← List.append_assoc]
              exact List.infix_append rest _ behind
      · rintro (hfront | hinside)
        · exact hfront.isInfix
        · exact hinside.trans (List.suffix_append _ _).isInfix

/-- A text stands in another one as bytes exactly if it does as characters. -/
theorem utf8_infix_iff {part text : String} :
    utf8 part <:+: utf8 text ↔ part.toList <:+: text.toList := by
  rw [utf8_eq_flatMap, utf8_eq_flatMap, flatMap_utf8EncodeChar_infix_iff]

end UrlFilter
