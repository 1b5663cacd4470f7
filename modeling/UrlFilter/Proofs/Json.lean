/-
JSON texts can be read back.

A serializer is faithful if every value has a text and no two values have the same.  The texts
with a member or element to a line are such.  Of two equal texts, with something behind each, the
first characters tell the kind of the value, and what the value is made of is peeled off both
texts piece by piece, so that what is left behind is equal again.
-/
import UrlFilter.Json

namespace UrlFilter

/-- Does a serializer give every value a text? -/
def Serializer.IsTotal (serialize : Serializer) : Prop :=
  ∀ value, ∃ text, serialize value = .ok text

/-- Every value has a text, and the text tells the value. -/
structure Serializer.IsFaithful (serialize : Serializer) : Prop where
  total : serialize.IsTotal
  injective : ∀ left right text, serialize left = .ok text → serialize right = .ok text →
    left = right

namespace Json

/-! ### Strings -/

/-- The characters with an escape of their own. -/
def escaped : List Char :=
  '\x22' :: '\\' :: (List.range 0x20).map Char.ofNat

theorem mem_escaped_of_lt {c : Char} (h : c.toNat < 0x20) : c ∈ escaped := by
  have hc : c ∈ (List.range 0x20).map Char.ofNat :=
    List.mem_map.2 ⟨c.toNat, List.mem_range.2 h, Char.ofNat_toNat c⟩
  exact List.mem_cons_of_mem _ (List.mem_cons_of_mem _ hc)

theorem escapeChar_of_not_mem {c : Char} (h : c ∉ escaped) : escapeChar c = [c] := by
  have hne : ∀ d ∈ escaped, c ≠ d := fun d hd heq => h (heq ▸ hd)
  have hge : ¬c.toNat < 0x20 := fun hlt => h (mem_escaped_of_lt hlt)
  rw [escapeChar, if_neg (hne _ (by decide)), if_neg (hne _ (by decide)),
    if_neg (hne _ (by decide)), if_neg (hne _ (by decide)), if_neg (hne _ (by decide)),
    if_neg (hne _ (by decide)), if_neg (hne _ (by decide)), if_neg hge]

theorem head?_escapeChar_of_mem {c : Char} (h : c ∈ escaped) :
    (escapeChar c).head? = some '\\' := by
  have hall : (escaped.all fun c => (escapeChar c).head? = some '\\') = true := by
    decide +kernel
  exact of_decide_eq_true (List.all_eq_true.1 hall c h)

/-- An escape begins with a character that is not its own. -/
theorem exists_escapeChar_eq_cons (c : Char) :
    ∃ tail, escapeChar c = (if c ∈ escaped then '\\' else c) :: tail := by
  split
  · next h => exact List.head?_eq_some_iff.1 (head?_escapeChar_of_mem h)
  · next h => exact ⟨[], escapeChar_of_not_mem h⟩

theorem eq_of_escapeChar_isPrefix_of_mem {c d : Char} (hc : c ∈ escaped) (hd : d ∈ escaped)
    (h : escapeChar c <+: escapeChar d) : c = d := by
  have hall : (escaped.all fun c => escaped.all fun d =>
      !(escapeChar c).isPrefixOf (escapeChar d) || c = d) = true := by
    decide +kernel
  have hpair := List.all_eq_true.1 (List.all_eq_true.1 hall c hc) d hd
  rw [List.isPrefixOf_iff_prefix.2 h] at hpair
  exact of_decide_eq_true hpair

theorem eq_of_escapeChar_isPrefix {c d : Char} (h : escapeChar c <+: escapeChar d) : c = d := by
  obtain ⟨tail, hc⟩ := exists_escapeChar_eq_cons c
  obtain ⟨tail', hd⟩ := exists_escapeChar_eq_cons d
  have hfirst : (if c ∈ escaped then '\\' else c) = if d ∈ escaped then '\\' else d := by
    rw [hc, hd, List.cons_prefix_cons] at h
    exact h.1
  -- The first characters tell an escape from a character that stands for itself, since the
  -- backslash has an escape of its own.
  have hbackslash : '\\' ∈ escaped := by decide
  split at hfirst
  · next hcmem =>
    split at hfirst
    · next hdmem => exact eq_of_escapeChar_isPrefix_of_mem hcmem hdmem h
    · next hdmem => exact absurd (hfirst ▸ hbackslash) hdmem
  · next hcmem =>
    split at hfirst
    · exact absurd (hfirst ▸ hbackslash) hcmem
    · exact hfirst

theorem escapeChar_append_ne (c : Char) (rest rest' : List Char) :
    escapeChar c ++ rest ≠ '\x22' :: rest' := by
  obtain ⟨tail, hc⟩ := exists_escapeChar_eq_cons c
  have hquote : '\x22' ∈ escaped := by decide
  intro heq
  rw [hc, List.cons_append, List.cons.injEq] at heq
  have hfirst := heq.1
  split at hfirst
  · exact absurd hfirst (by decide)
  · next h => exact h (hfirst ▸ hquote)

/-- Two escapes with something behind each are told apart. -/
theorem escapeChar_append_inj {c d : Char} {rest rest' : List Char}
    (h : escapeChar c ++ rest = escapeChar d ++ rest') : c = d ∧ rest = rest' := by
  have hcd : c = d := by
    have hc : escapeChar c <+: escapeChar d ++ rest' := h ▸ List.prefix_append _ _
    have hd : escapeChar d <+: escapeChar d ++ rest' := List.prefix_append _ _
    rcases List.prefix_or_prefix_of_prefix hc hd with hprefix | hprefix
    · exact eq_of_escapeChar_isPrefix hprefix
    · exact (eq_of_escapeChar_isPrefix hprefix).symm
  subst hcd
  exact ⟨rfl, List.append_cancel_left h⟩

theorem flatMap_escapeChar_append_inj {left right rest rest' : List Char}
    (h : left.flatMap escapeChar ++ '\x22' :: rest = right.flatMap escapeChar ++ '\x22' :: rest') :
    left = right ∧ rest = rest' := by
  induction left generalizing right with
  | nil =>
      cases right with
      | nil => exact ⟨rfl, List.tail_eq_of_cons_eq h⟩
      | cons d right =>
          rw [List.flatMap_cons, List.append_assoc] at h
          exact absurd h.symm (escapeChar_append_ne d _ _)
  | cons c left ih =>
      rw [List.flatMap_cons, List.append_assoc] at h
      cases right with
      | nil => exact absurd h (escapeChar_append_ne c _ _)
      | cons d right =>
          rw [List.flatMap_cons, List.append_assoc] at h
          obtain ⟨rfl, hlater⟩ := escapeChar_append_inj h
          obtain ⟨rfl, hrest⟩ := ih hlater
          exact ⟨rfl, hrest⟩

theorem string_append_inj {left right : String} {rest rest' : List Char}
    (h : (string left).toList ++ rest = (string right).toList ++ rest') :
    left = right ∧ rest = rest' := by
  simp only [string, String.toList_ofList, List.cons_append, List.append_assoc,
    List.nil_append, List.cons.injEq, true_and] at h
  obtain ⟨hchars, hrest⟩ := flatMap_escapeChar_append_inj h
  exact ⟨String.toList_inj.1 hchars, hrest⟩

/-! ### Numbers -/

/-- What stands behind a value is not a digit, which a number would take in. -/
def MayFollow (rest : List Char) : Prop :=
  ∀ c ∈ rest.head?, c.isDigit = false

theorem mayFollow_nil : MayFollow [] := by
  intro c hc
  cases hc

theorem mayFollow_cons {c : Char} (h : c.isDigit = false) (rest : List Char) :
    MayFollow (c :: rest) := by
  intro d hd
  cases hd
  exact h

/-- The digits in front are those of the number. -/
theorem takeWhile_toDigits_append (number : Nat) {rest : List Char} (h : MayFollow rest) :
    (Nat.toDigits 10 number ++ rest).takeWhile Char.isDigit = Nat.toDigits 10 number := by
  rw [List.takeWhile_append_of_pos fun c hc =>
    Nat.isDigit_of_mem_toDigits (by decide) (by decide) hc]
  cases rest with
  | nil => rw [List.takeWhile_nil, List.append_nil]
  | cons c rest =>
      rw [List.takeWhile_cons_of_neg, List.append_nil]
      rw [h c rfl]
      exact Bool.false_ne_true

theorem toDigits_append_inj {left right : Nat} {rest rest' : List Char} (hrest : MayFollow rest)
    (hrest' : MayFollow rest')
    (h : Nat.toDigits 10 left ++ rest = Nat.toDigits 10 right ++ rest') :
    left = right ∧ rest = rest' := by
  have hdigits : Nat.toDigits 10 left = Nat.toDigits 10 right := by
    rw [← takeWhile_toDigits_append left hrest, h, takeWhile_toDigits_append right hrest']
  have hnumber : left = right :=
    calc
      left = Nat.ofDigitChars 10 (Nat.toDigits 10 left) 0 := Nat.ofDigitChars_ten_toDigits.symm
      _ = Nat.ofDigitChars 10 (Nat.toDigits 10 right) 0 := by rw [hdigits]
      _ = right := Nat.ofDigitChars_ten_toDigits
  rw [hdigits] at h
  exact ⟨hnumber, List.append_cancel_left h⟩

/-! ### Lines between brackets -/

section Lines

variable (closing : List Char) (depth : Nat)

/-- The start of a line between brackets. -/
def lineStart : List Char :=
  '\n' :: (indentation (depth + 1)).toList

/-- The lines behind the first one, with the comma in front of each, and the closing bracket. -/
def laterLines : List (List Char) → List Char
  | [] => '\n' :: ((indentation depth).toList ++ closing)
  | line :: lines => ',' :: (lineStart depth ++ (line ++ laterLines lines))

/-- The lines behind the opening bracket. -/
def bodyLines : List (List Char) → List Char
  | [] => closing
  | line :: lines => lineStart depth ++ (line ++ laterLines closing depth lines)

theorem mayFollow_laterLines (lines : List (List Char)) (rest : List Char) :
    MayFollow (laterLines closing depth lines ++ rest) := by
  cases lines with
  | nil => exact mayFollow_cons rfl _
  | cons line lines => exact mayFollow_cons rfl _

theorem toList_intercalate_append (line : String) (lines : List String) :
    (String.intercalate ",\n"
        ((line :: lines).map fun line => indentation (depth + 1) ++ line)).toList ++
        '\n' :: ((indentation depth).toList ++ closing) =
      (indentation (depth + 1)).toList ++
        (line.toList ++ laterLines closing depth (lines.map String.toList)) := by
  induction lines generalizing line with
  | nil =>
      simp only [List.map_cons, List.map_nil, String.intercalate_singleton, String.toList_append,
        laterLines, List.append_assoc]
  | cons next lines ih =>
      rw [List.map_cons, List.map_cons, String.intercalate_cons_cons, ← List.map_cons]
      simp only [String.toList_append, List.append_assoc, ih next]
      rfl

theorem toList_enclose (opening closing : String) (lines : List String) :
    (enclose opening closing depth lines).toList =
      opening.toList ++ bodyLines closing.toList depth (lines.map String.toList) := by
  cases lines with
  | nil => exact String.toList_append
  | cons line lines =>
      have hcons : (line :: lines).isEmpty = false := rfl
      rw [enclose, hcons, if_neg Bool.false_ne_true]
      simp only [String.toList_append, List.append_assoc, List.map_cons, bodyLines, lineStart]
      rw [List.cons_append, ← toList_intercalate_append closing.toList depth line lines]
      rfl

end Lines

section Pieces

variable {α : Type} {print : α → List Char}

/-- The characters of one thing are not those of another, whatever follows them. -/
def ToldApart (print : α → List Char) (thing : α) : Prop :=
  ∀ other rest rest', MayFollow rest → MayFollow rest' →
    print thing ++ rest = print other ++ rest' → thing = other ∧ rest = rest'

variable {closing : List Char} {depth : Nat} {left right : List α} {rest rest' : List Char}

/-- The comma in front of a line tells it from the line feed in front of the closing bracket. -/
theorem laterLines_append_inj (hprint : ∀ thing ∈ left, ToldApart print thing)
    (h : laterLines closing depth (left.map print) ++ rest =
      laterLines closing depth (right.map print) ++ rest') : left = right ∧ rest = rest' := by
  induction left generalizing right with
  | nil =>
      cases right with
      | nil => exact ⟨rfl, List.append_cancel_left h⟩
      | cons other right => exact absurd (List.head_eq_of_cons_eq h) (by decide)
  | cons thing left ih =>
      cases right with
      | nil => exact absurd (List.head_eq_of_cons_eq h) (by decide)
      | cons other right =>
          simp only [List.map_cons, laterLines, List.cons_append, List.append_assoc,
            List.cons.injEq, true_and, List.append_cancel_left_eq] at h
          obtain ⟨rfl, hlater⟩ := hprint thing List.mem_cons_self other _ _
            (mayFollow_laterLines _ _ _ _) (mayFollow_laterLines _ _ _ _) h
          obtain ⟨rfl, hrest⟩ :=
            ih (fun other hother => hprint other (List.mem_cons_of_mem _ hother)) hlater
          exact ⟨rfl, hrest⟩

/-- Lines between brackets are told apart if each line is. -/
theorem bodyLines_append_inj (hclosing : ∀ text text', closing ++ text ≠ '\n' :: text')
    (hprint : ∀ thing ∈ left, ToldApart print thing)
    (h : bodyLines closing depth (left.map print) ++ rest =
      bodyLines closing depth (right.map print) ++ rest') : left = right ∧ rest = rest' := by
  cases left with
  | nil =>
      cases right with
      | nil => exact ⟨rfl, List.append_cancel_left h⟩
      | cons other right => exact absurd h (hclosing rest _)
  | cons thing left =>
      cases right with
      | nil => exact absurd h.symm (hclosing rest' _)
      | cons other right =>
          simp only [List.map_cons, bodyLines, List.append_assoc,
            List.append_cancel_left_eq] at h
          obtain ⟨rfl, hlater⟩ := hprint thing List.mem_cons_self other _ _
            (mayFollow_laterLines _ _ _ _) (mayFollow_laterLines _ _ _ _) h
          obtain ⟨rfl, hrest⟩ := laterLines_append_inj
            (fun other hother => hprint other (List.mem_cons_of_mem _ hother)) hlater
          exact ⟨rfl, hrest⟩

end Pieces

/-! ### Values -/

/-- The characters of a value. -/
def chars (depth : Nat) (value : Json) : List Char :=
  (value.pretty depth).toList

/-- The characters of a member. -/
def memberChars (depth : Nat) (member : String × Json) : List Char :=
  (string member.1).toList ++ ':' :: ' ' :: member.2.chars depth

theorem map_prettyElements (depth : Nat) (elements : List Json) :
    (prettyElements depth elements).map String.toList = elements.map (chars depth) := by
  induction elements with
  | nil => rfl
  | cons element rest ih => exact congrArg (chars depth element :: ·) ih

theorem map_prettyMembers (depth : Nat) (members : List (String × Json)) :
    (prettyMembers depth members).map String.toList = members.map (memberChars depth) := by
  induction members with
  | nil => rfl
  | cons member rest ih =>
      rw [prettyMembers, List.map_cons, List.map_cons, ih, String.toList_append,
        String.toList_append, List.append_assoc]
      rfl

theorem chars_number (depth number : Nat) :
    chars depth (.number number) = Nat.toDigits 10 number := by
  rw [chars, pretty, Nat.toString_eq_repr, Nat.toList_repr]

theorem chars_text (depth : Nat) (value : String) :
    chars depth (.text value) = (string value).toList :=
  congrArg String.toList (pretty.eq_2 depth value)

theorem chars_array (depth : Nat) (elements : List Json) : chars depth (.array elements) =
    '[' :: bodyLines [']'] depth (elements.map (chars (depth + 1))) := by
  rw [chars, pretty, toList_enclose, map_prettyElements]
  rfl

theorem chars_object (depth : Nat) (members : List (String × Json)) :
    chars depth (.object members) =
      '\x7b' :: bodyLines ['\x7d'] depth (members.map (memberChars (depth + 1))) := by
  rw [chars, pretty, toList_enclose, map_prettyMembers]
  rfl

/-- The kinds of values. -/
inductive Kind
  | number
  | text
  | array
  | object
  deriving DecidableEq

/-- The kind of a value. -/
def kind : Json → Kind
  | number _ => .number
  | text _ => .text
  | array _ => .array
  | object _ => .object

/-- The kind of the values that begin with a character. -/
def kindOfFirst (first : Char) : Kind :=
  if first = '\x22' then .text
  else if first = '[' then .array
  else if first = '\x7b' then .object
  else .number

theorem kindOfFirst_of_isDigit {first : Char} (h : first.isDigit = true) :
    kindOfFirst first = .number := by
  have hne : ∀ c : Char, c.isDigit = false → first ≠ c := by
    rintro c hc rfl
    exact absurd h (hc ▸ Bool.false_ne_true)
  rw [kindOfFirst, if_neg (hne _ rfl), if_neg (hne _ rfl), if_neg (hne _ rfl)]

theorem exists_chars_eq_cons (depth : Nat) (value : Json) :
    ∃ first tail, value.chars depth = first :: tail ∧ kindOfFirst first = value.kind := by
  cases value with
  | number number =>
      obtain ⟨first, tail, hdigits⟩ := List.exists_cons_of_ne_nil
        (Nat.toDigits_ne_nil (n := number) (b := 10))
      have hfirst : first ∈ Nat.toDigits 10 number := hdigits ▸ List.mem_cons_self
      exact ⟨first, tail, (chars_number depth number).trans hdigits,
        kindOfFirst_of_isDigit (Nat.isDigit_of_mem_toDigits (by decide) (by decide) hfirst)⟩
  | text value =>
      exact ⟨'\x22', _, (chars_text depth value).trans String.toList_ofList, rfl⟩
  | array elements => exact ⟨'[', _, chars_array depth elements, rfl⟩
  | object members => exact ⟨'\x7b', _, chars_object depth members, rfl⟩

theorem kind_eq_of_chars_append {depth : Nat} {value other : Json} {rest rest' : List Char}
    (h : value.chars depth ++ rest = other.chars depth ++ rest') : value.kind = other.kind := by
  obtain ⟨first, tail, hvalue, hfirst⟩ := exists_chars_eq_cons depth value
  obtain ⟨first', tail', hother, hfirst'⟩ := exists_chars_eq_cons depth other
  rw [hvalue, hother] at h
  rw [← hfirst, ← hfirst', List.head_eq_of_cons_eq h]

theorem toldApart_number (depth number : Nat) : ToldApart (chars depth) (.number number) := by
  intro other rest rest' hrest hrest' h
  cases other with
  | number other =>
      rw [chars_number, chars_number] at h
      obtain ⟨rfl, htail⟩ := toDigits_append_inj hrest hrest' h
      exact ⟨rfl, htail⟩
  | _ => cases kind_eq_of_chars_append h

theorem toldApart_text (depth : Nat) (value : String) : ToldApart (chars depth) (.text value) := by
  intro other rest rest' _ _ h
  cases other with
  | text other =>
      rw [chars_text, chars_text] at h
      obtain ⟨rfl, htail⟩ := string_append_inj h
      exact ⟨rfl, htail⟩
  | _ => cases kind_eq_of_chars_append h

theorem toldApart_array {depth : Nat} {elements : List Json}
    (helements : ∀ element ∈ elements, ToldApart (chars (depth + 1)) element) :
    ToldApart (chars depth) (.array elements) := by
  intro other rest rest' _ _ h
  cases other with
  | array others =>
      rw [chars_array, chars_array] at h
      obtain ⟨rfl, htail⟩ := bodyLines_append_inj
        (fun _ _ heq => absurd (List.head_eq_of_cons_eq heq) (by decide)) helements
        (List.tail_eq_of_cons_eq h)
      exact ⟨rfl, htail⟩
  | _ => cases kind_eq_of_chars_append h

theorem toldApart_member {depth : Nat} {member : String × Json}
    (hvalue : ToldApart (chars depth) member.2) : ToldApart (memberChars depth) member := by
  intro other rest rest' hrest hrest' h
  rw [memberChars, memberChars, List.append_assoc, List.append_assoc] at h
  obtain ⟨hname, hlater⟩ := string_append_inj h
  have hchars : member.2.chars depth ++ rest = other.2.chars depth ++ rest' :=
    List.tail_eq_of_cons_eq (List.tail_eq_of_cons_eq hlater)
  obtain ⟨heq, htail⟩ := hvalue other.2 rest rest' hrest hrest' hchars
  exact ⟨Prod.ext hname heq, htail⟩

theorem toldApart_object {depth : Nat} {members : List (String × Json)}
    (hmembers : ∀ member ∈ members, ToldApart (chars (depth + 1)) member.2) :
    ToldApart (chars depth) (.object members) := by
  intro other rest rest' _ _ h
  cases other with
  | object others =>
      rw [chars_object, chars_object] at h
      obtain ⟨rfl, htail⟩ := bodyLines_append_inj
        (fun _ _ heq => absurd (List.head_eq_of_cons_eq heq) (by decide))
        (fun member hmember => toldApart_member (hmembers member hmember))
        (List.tail_eq_of_cons_eq h)
      exact ⟨rfl, htail⟩
  | _ => cases kind_eq_of_chars_append h

theorem sizeOf_lt_of_mem_members {member : String × Json} {members : List (String × Json)}
    (h : member ∈ members) : sizeOf member.2 < sizeOf (object members) := by
  have hmember : sizeOf member < sizeOf members := List.sizeOf_lt_of_mem h
  have hsize : sizeOf member = 1 + sizeOf member.1 + sizeOf member.2 := rfl
  rw [object.sizeOf_spec]
  omega

/-- The values are told apart, by induction on the one whose text comes first. -/
theorem toldApart_chars (depth : Nat) : ∀ value : Json, ToldApart (chars depth) value
  | .number value => toldApart_number depth value
  | .text value => toldApart_text depth value
  | .array _ => toldApart_array fun element _ => toldApart_chars (depth + 1) element
  | .object _ => toldApart_object fun member _ => toldApart_chars (depth + 1) member.2
termination_by value => value
decreasing_by
  · rename_i helement
    rw [array.sizeOf_spec]
    exact Nat.lt_add_left 1 (List.sizeOf_lt_of_mem helement)
  · rename_i hmember
    exact sizeOf_lt_of_mem_members hmember

/-- A text is that of one value only. -/
theorem pretty_injective (depth : Nat) : Function.Injective (pretty depth) := by
  intro left right h
  have hchars : left.chars depth ++ [] = right.chars depth ++ [] := by
    rw [chars, chars, h]
  exact (toldApart_chars depth left right [] [] mayFollow_nil mayFollow_nil hchars).1

/-- Printing a member or element to a line is faithful. -/
theorem isFaithful_pretty : Serializer.IsFaithful fun value => .ok (value.pretty 0) where
  total value := ⟨value.pretty 0, rfl⟩
  injective _ _ _ hleft hright :=
    pretty_injective 0 (Except.ok.inj (hleft.trans hright.symm))

end Json

end UrlFilter
