/-
Runs of bytes and of characters.

A move over a class of bytes goes to the end of the run of them.  Where the encoding of a
character is all in a class of bytes or all outside, the run of bytes at the front of a
text is the encoding of the run of its characters.
-/
import UrlFilter.Proofs.Text.Ascii
import Mathlib.Data.List.TakeWhile

namespace UrlFilter

/-- A move goes over the run of bytes in front of the cursor. -/
theorem advance_eq_add_length_takeWhile (text : String) (skip : UInt8 → Bool) (cursor : Nat) :
    advance text.toByteArray skip cursor =
      cursor + (((utf8 text).drop cursor).takeWhile skip).length := by
  have hsize : text.toByteArray.size = (utf8 text).length := rfl
  induction hroom : (utf8 text).length - cursor generalizing cursor with
  | zero =>
      have hle : (utf8 text).length ≤ cursor := by omega
      rw [advance_eq, if_neg (by omega), List.drop_eq_nil_of_le hle]
      rfl
  | succ room ih =>
      have hlt : cursor < (utf8 text).length := by omega
      have hbyte : byteAt text.toByteArray cursor = (utf8 text)[cursor] :=
        byteAt_of_lt (hsize ▸ hlt)
      rw [advance_eq, hbyte, hsize, List.drop_eq_getElem_cons hlt]
      by_cases hskip : skip (utf8 text)[cursor] = true
      · rw [if_pos ⟨hlt, hskip⟩, ih (cursor + 1) (by omega),
          List.takeWhile_cons_of_pos hskip, List.length_cons]
        omega
      · rw [if_neg fun h => hskip h.2, List.takeWhile_cons_of_neg hskip]
        rfl

/-- A run ends in front of the first element outside. -/
theorem takeWhile_append_cons {α : Type} {p : α → Bool} {front rest : List α} {a : α}
    (hfront : ∀ b ∈ front, p b = true) (ha : p a = false) :
    (front ++ a :: rest).takeWhile p = front := by
  rw [List.takeWhile_append_of_pos hfront, List.takeWhile_cons_of_neg (by simp [ha]),
    List.append_nil]

section Run

variable {α : Type} {p : α → Bool} {front rest : List α} (hfront : ∀ b ∈ front, p b = true)
  (hrest : ∀ a, rest.head? = some a → p a = false)
include hfront hrest

/-- A run ends in front of what does not begin inside. -/
theorem takeWhile_append_of_head? : (front ++ rest).takeWhile p = front := by
  cases rest with
  | nil => rw [List.append_nil, List.takeWhile_eq_self_iff.2 hfront]
  | cons a rest => exact takeWhile_append_cons hfront (hrest a rfl)

theorem dropWhile_append_of_head? : (front ++ rest).dropWhile p = rest := by
  have hsplit := List.takeWhile_append_dropWhile (p := p) (l := front ++ rest)
  rw [takeWhile_append_of_head? hfront hrest] at hsplit
  exact List.append_cancel_left hsplit

end Run

/-- What is behind the run at the front of a list. -/
theorem drop_length_takeWhile {α : Type} (p : α → Bool) (list : List α) :
    list.drop (list.takeWhile p).length = list.dropWhile p := by
  have hsplit := List.takeWhile_append_dropWhile (p := p) (l := list)
  have hdrop : (list.takeWhile p ++ list.dropWhile p).drop (list.takeWhile p).length =
      list.dropWhile p := List.drop_left
  rwa [hsplit] at hdrop

/-- The elements of a list are other ones than an element outside. -/
theorem forall_bne_of_not_mem {α : Type} [BEq α] [LawfulBEq α] {a : α} {list : List α}
    (h : a ∉ list) : ∀ b ∈ list, (b != a) = true := by
  intro b hb
  rw [bne_iff_ne]
  rintro rfl
  exact h hb

/-- Where all that ends a run is in a class, a part of the run stands at the front of a
text, with nothing or one of the class behind it, if the run is the part or goes on with
one of the class. -/
theorem prefix_and_next_iff_takeWhile {α : Type} {inside class? : α → Bool}
    (hclass : ∀ a, inside a = false → class? a = true) {part text : List α}
    (hpart : ∀ a ∈ part, inside a = true) :
    (part <+: text ∧ ∀ a, text[part.length]? = some a → class? a = true) ↔
      text.takeWhile inside = part ∨
        ∃ a, class? a = true ∧ part ++ [a] <+: text.takeWhile inside := by
  constructor
  · rintro ⟨⟨rest, rfl⟩, hnext⟩
    cases rest with
    | nil =>
        left
        rw [List.append_nil, List.takeWhile_eq_self_iff.2 hpart]
    | cons a rest =>
        by_cases ha : inside a = true
        · right
          refine ⟨a, hnext a (by simp), rest.takeWhile inside, ?_⟩
          rw [List.takeWhile_append_of_pos hpart, List.takeWhile_cons_of_pos ha,
            List.append_assoc, List.singleton_append]
        · exact Or.inl (takeWhile_append_cons hpart (by simpa using ha))
  · rintro (hrun | ⟨a, ha, hrun⟩)
    · subst hrun
      refine ⟨List.takeWhile_prefix inside, fun a hnext => ?_⟩
      rw [← Nat.add_zero (text.takeWhile inside).length, ← List.getElem?_drop,
        drop_length_takeWhile, ← List.head?_eq_getElem?] at hnext
      have hend := List.head?_dropWhile_not inside text
      rw [hnext] at hend
      exact hclass a (by simpa using hend)
    · obtain ⟨rest, rfl⟩ := hrun.trans (List.takeWhile_prefix inside)
      refine ⟨⟨a :: rest, by simp⟩, fun other hnext => ?_⟩
      have hother : a = other := by simpa using hnext
      rwa [← hother]

/-- The encoding of a character is in a class of bytes, each byte of it, if the character is
in a class of characters, and outside otherwise. -/
def Encodes (characters : Char → Bool) (bytes : UInt8 → Bool) : Prop :=
  ∀ c, ∀ byte ∈ String.utf8EncodeChar c, bytes byte = characters c

theorem encodes_eq {byte : UInt8} (hascii : byte < 0x80) :
    Encodes (· == Char.ofUInt8 byte) (· == byte) := by
  intro c other hother
  by_cases hc : c = Char.ofUInt8 byte
  · subst hc
    rw [utf8EncodeChar_ofUInt8 hascii, List.mem_singleton] at hother
    simp [hother]
  · have hne : other ≠ byte := by
      rintro rfl
      exact hc (eq_ofUInt8_of_mem_utf8EncodeChar hascii hother)
    simp [hc, hne]

theorem encodes_ne {byte : UInt8} (hascii : byte < 0x80) :
    Encodes (· != Char.ofUInt8 byte) (· != byte) := by
  intro c other hother
  exact congrArg not (encodes_eq hascii c other hother)

section Encodes

variable {characters : Char → Bool} {bytes : UInt8 → Bool} (h : Encodes characters bytes)
include h

theorem Encodes.takeWhile (text : List Char) :
    (text.flatMap String.utf8EncodeChar).takeWhile bytes =
      (text.takeWhile characters).flatMap String.utf8EncodeChar := by
  induction text with
  | nil => rfl
  | cons c text ih =>
      rw [List.flatMap_cons]
      by_cases hc : characters c = true
      · rw [List.takeWhile_cons_of_pos hc, List.flatMap_cons, ← ih,
          List.takeWhile_append_of_pos fun byte hbyte => (h c byte hbyte).trans hc]
      · obtain ⟨byte, others, hbytes⟩ :=
          List.exists_cons_of_ne_nil (String.utf8EncodeChar_ne_nil (c := c))
        have hbyte : ¬ bytes byte = true := by
          rwa [h c byte (by simp [hbytes])]
        rw [List.takeWhile_cons_of_neg hc, hbytes, List.cons_append,
          List.takeWhile_cons_of_neg hbyte]
        rfl

theorem Encodes.dropWhile (text : List Char) :
    (text.flatMap String.utf8EncodeChar).dropWhile bytes =
      (text.dropWhile characters).flatMap String.utf8EncodeChar := by
  have hbytes := List.takeWhile_append_dropWhile (p := bytes)
    (l := text.flatMap String.utf8EncodeChar)
  have hcharacters := congrArg (List.flatMap String.utf8EncodeChar)
    (List.takeWhile_append_dropWhile (p := characters) (l := text))
  rw [List.flatMap_append, ← h.takeWhile] at hcharacters
  exact List.append_cancel_left (hbytes.trans hcharacters.symm)

/-- A move from behind some text goes over the run of a class that stands there, and stops in
front of what follows. -/
theorem Encodes.advance_eq {text : String} (front : List Char) {run behind : List Char}
    (htext : text.toList = front ++ (run ++ behind)) (hrun : ∀ c ∈ run, characters c = true)
    (hbehind : ∀ c, behind.head? = some c → characters c = false) :
    advance text.toByteArray bytes (front.flatMap String.utf8EncodeChar).length =
      ((front ++ run).flatMap String.utf8EncodeChar).length := by
  rw [advance_eq_add_length_takeWhile, utf8_eq_flatMap, htext, List.flatMap_append,
    List.drop_left, h.takeWhile, takeWhile_append_of_head? hrun hbehind, List.flatMap_append,
    List.length_append]

end Encodes

end UrlFilter
