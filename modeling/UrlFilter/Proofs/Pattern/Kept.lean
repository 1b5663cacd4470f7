/-
Patterns that normalizing keeps.

Behind its anchor a pattern text has nothing but bytes of URLs and separators, and at most one bar,
which is the last byte.  Normalizing takes characters away, so it leaves such a text, and the only
faults that could be left are a wildcard at the end and one in front of the end anchor.  Of these
no normal form has the first, and it has the second only if the text had an end anchor too many.
Every byte but a wildcard takes one instruction at least, and in a normal form just one, so a
normal form needs no more instructions than its text.
-/
import UrlFilter.Proofs.Pattern.Front
import UrlFilter.Proofs.Pattern.Decode

namespace UrlFilter

namespace Pattern

/-- Bytes that can stand behind the anchor of a pattern, but for wildcards with nothing to look
for: each stands for an atom or is a bar, and nothing stands behind a bar. -/
structure IsBody (bytes : List UInt8) : Prop where
  readable : ∀ byte ∈ bytes, byte = Byte.bar ∨ Atom.ofByte? byte ≠ none
  bar_last : bytes.Pairwise fun byte _ => byte ≠ Byte.bar

theorem IsBody.sublist {bytes kept : List UInt8} (hbody : IsBody bytes)
    (hkept : kept.Sublist bytes) : IsBody kept where
  readable := fun byte hbyte => hbody.readable byte (hkept.subset hbyte)
  bar_last := hbody.bar_last.sublist hkept

/-- Such bytes are ASCII. -/
theorem IsBody.byte_lt {bytes : List UInt8} (hbody : IsBody bytes) :
    ∀ byte ∈ bytes, byte < 0x80 := by
  intro byte hbyte
  rcases hbody.readable byte hbyte with rfl | hread
  · decide
  · obtain ⟨atom, hatom⟩ := Option.ne_none_iff_exists'.1 hread
    rw [← Atom.byte_of_ofByte? hatom]
    exact (Atom.isWritable_of_ofByte? hatom).byte_lt

/-- What stands for no atom in such bytes is the bar at their end. -/
theorem IsBody.eq_bar {byte : UInt8} {rest : List UInt8} (hbody : IsBody (byte :: rest))
    (hatom : Atom.ofByte? byte = none) : byte = Byte.bar ∧ rest = [] := by
  have hbar : byte = Byte.bar := by
    rcases hbody.readable byte List.mem_cons_self with hbar | hread
    · exact hbar
    · exact absurd hatom hread
  refine ⟨hbar, List.eq_nil_iff_forall_not_mem.2 fun other hother => ?_⟩
  exact (List.pairwise_cons.1 hbody.bar_last).1 other hother hbar

/-- Such bytes stop being read only at a wildcard that ends them or stands in front of the end
anchor. -/
theorem IsBody.eq_of_stuck {rest : List UInt8} {delay : Nat} (hbody : IsBody rest)
    (hstuck : Stuck rest delay) : rest = [Byte.star] ∨ rest = [Byte.star, Byte.bar] := by
  cases hstuck with
  | stray hcaret hurl hbar =>
      obtain ⟨hbyte, hrest⟩ := hbody.eq_bar (Atom.ofByte?_eq_none_iff.2 ⟨hcaret, hurl⟩)
      exact absurd hrest (hbar hbyte)
  | behindStar hcaret hurl =>
      have hbehind := hbody.sublist (List.sublist_cons_self _ _)
      obtain ⟨rfl, rfl⟩ := hbehind.eq_bar (Atom.ofByte?_eq_none_iff.2 ⟨hcaret, hurl⟩)
      exact Or.inr rfl
  | danglingStar => exact Or.inl rfl

namespace Lead

/-- The mark and the anchor of a lead. -/
def front (lead : Lead) : List UInt8 :=
  lead.markBytes ++ lead.anchor.bytes

/-- The text of the tokens of a lead and of the end anchor. -/
def body (lead : Lead) (tail : Bool) : List UInt8 :=
  lead.tokens.flatMap Token.bytes ++ if tail then [Byte.bar] else []

theorem mem_front {lead : Lead} {byte : UInt8} (hbyte : byte ∈ lead.front) :
    byte = Byte.commercialAt ∨ byte = Byte.bar := by
  rcases List.mem_append.1 hbyte with hmark | hanchor
  · rw [markBytes] at hmark
    split at hmark
    · left
      simpa [exceptionMark] using hmark
    · contradiction
  · exact Or.inr (Anchor.eq_bar_of_mem_bytes hanchor)

/-- No wildcard and no separator stands in the mark and the anchor. -/
theorem not_mem_map_front {c : Char} (lead : Lead) (hc : c = '*' ∨ c = '^') :
    c ∉ lead.front.map Char.ofUInt8 := by
  intro hmem
  obtain ⟨byte, hbyte, rfl⟩ := List.mem_map.1 hmem
  rcases mem_front hbyte with rfl | rfl
  · exact absurd hc (by decide)
  · exact absurd hc (by decide)

section Opens

variable {lead : Lead} {text rest : List UInt8} {tail : Bool}

theorem Opens.eq_front_append_body
    (hopens : lead.Opens text (if tail then [Byte.bar] else [])) :
    text = lead.front ++ lead.body tail := by
  rw [hopens.text_eq, Lead.bytes, front, body, List.append_assoc]

theorem Opens.isBody (hopens : lead.Opens text rest) (tail : Bool) : IsBody (lead.body tail) where
  readable := by
    intro byte hbyte
    rcases List.mem_append.1 hbyte with htoken | htail
    · right
      rcases Token.mem_flatMap_bytes htoken with rfl | ⟨token, hmem, rfl⟩
      · decide
      · have hatom := (hopens.tokens_writable token hmem).atom_isWritable
        rw [Atom.ofByte?_byte hatom]
        exact Option.some_ne_none _
    · left
      cases tail with
      | false => contradiction
      | true => exact List.mem_singleton.1 htail
  bar_last := by
    have hbar : ∀ byte ∈ lead.tokens.flatMap Token.bytes, byte ≠ Byte.bar := fun byte hbyte =>
      (Token.bytes_bounds hopens.tokens_writable byte hbyte).2
    refine List.pairwise_append.2 ⟨?_, ?_, fun byte hbyte _ _ => hbar byte hbyte⟩
    · exact List.pairwise_of_forall_mem_list fun byte hbyte _ _ => hbar byte hbyte
    · cases tail <;> simp

/-- No mark with an anchor that a text begins with is longer than those that are taken. -/
theorem Opens.length_front_le (hopens : lead.Opens text rest) {other : Lead}
    (hfront : other.front <+: text) : other.front.length ≤ lead.front.length := by
  simp only [front, List.length_append]
  by_cases hsame : other.marked = lead.marked
  · have hmark : other.markBytes = lead.markBytes := by rw [markBytes, markBytes, hsame]
    rw [front, hmark] at hfront
    rw [hmark]
    exact Nat.add_le_add_left (hopens.anchor_longest other.anchor hfront) _
  · -- Only the lead has a mark, and no anchor is longer than that.
    cases hother : other.marked with
    | true =>
        have hmark : other.markBytes = exceptionMark := if_pos hother
        rw [front, hmark] at hfront
        have htaken := hopens.mark_taken ((List.prefix_append _ _).trans hfront)
        exact absurd (hother.trans htaken.symm) hsame
    | false =>
        have hlead : lead.marked = true := by
          simpa [hother] using hsame
        have hmark : lead.markBytes = exceptionMark := if_pos hlead
        have hnone : other.markBytes = [] := if_neg (by simp [hother])
        have hanchor : other.anchor.bytes.length ≤ exceptionMark.length := by
          cases other.anchor <;> decide
        rw [hmark, hnone, List.length_nil, Nat.zero_add]
        exact hanchor.trans (Nat.le_add_right _ _)

end Opens

end Lead

/-- The number of bytes that are no wildcards. -/
def signCount (bytes : List UInt8) : Nat :=
  bytes.countP (· ≠ Byte.star)

theorem signCount_append (left right : List UInt8) :
    signCount (left ++ right) = signCount left + signCount right :=
  List.countP_append

theorem signCount_bytes (token : Token) :
    signCount token.bytes = if token.atom.byte = Byte.star then 0 else 1 := by
  obtain ⟨front, hfront, hbytes⟩ := token.exists_bytes_eq
  have hzero : signCount front = 0 := by
    rw [signCount, List.countP_eq_zero]
    intro byte hbyte
    simp [List.mem_singleton.1 (hfront hbyte)]
  rw [hbytes, signCount_append, hzero, Nat.zero_add]
  by_cases hstar : token.atom.byte = Byte.star <;> simp [signCount, hstar]

/-- Each token has at most one byte that is no wildcard. -/
theorem signCount_flatMap_le (tokens : List Token) :
    signCount (tokens.flatMap Token.bytes) ≤ tokens.length := by
  induction tokens with
  | nil => exact Nat.le_refl 0
  | cons token tokens ih =>
      have htoken : signCount token.bytes ≤ 1 := by
        rw [signCount_bytes]
        split <;> decide
      rw [List.flatMap_cons, signCount_append, List.length_cons]
      omega

/-- A token that does not look for the byte of a wildcard has just one that is none. -/
theorem signCount_flatMap_eq {tokens : List Token}
    (hplain : ∀ token ∈ tokens, token.atom.byte ≠ Byte.star) :
    signCount (tokens.flatMap Token.bytes) = tokens.length := by
  induction tokens with
  | nil => rfl
  | cons token tokens ih =>
      have hbehind := ih fun other hother => hplain other (List.mem_cons_of_mem token hother)
      have htoken : signCount token.bytes = 1 := by
        rw [signCount_bytes, if_neg (hplain token List.mem_cons_self)]
      rw [List.flatMap_cons, signCount_append, List.length_cons, hbehind, htoken, Nat.add_comm]

namespace Lead

variable (lead : Lead) (tail : Bool)

/-- The mark is passed over, and the anchor and the end anchor take one instruction for each
byte. -/
theorem signCount_front_append_body :
    signCount (lead.front ++ lead.body tail) =
      lead.markBytes.length + lead.anchor.instructions.length +
        signCount (lead.tokens.flatMap Token.bytes) + if tail then 1 else 0 := by
  have hmark : signCount lead.markBytes = lead.markBytes.length := by
    rw [markBytes]
    split <;> rfl
  have hanchor : signCount lead.anchor.bytes = lead.anchor.instructions.length := by
    cases lead.anchor <;> rfl
  have htail : signCount (if tail then [Byte.bar] else []) = if tail then 1 else 0 := by
    cases tail <;> rfl
  rw [front, body, signCount_append, signCount_append, signCount_append, hmark, hanchor, htail]
  omega

end Lead

section Normal

variable {text : String} {lead : Lead} {tail : Bool}
  (hopens : lead.Opens (utf8 text) (if tail then [Byte.bar] else []))
include hopens

theorem toList_of_opens : text.toList =
    lead.front.map Char.ofUInt8 ++ (lead.body tail).map Char.ofUInt8 := by
  rw [toList_eq_map_of_ascii hopens.byte_lt_of_tail, hopens.eq_front_append_body,
    List.map_append]

/-- The bytes of a normal form are what is left of the mark and the anchor of its text, all of
them or none, and some of the bytes behind these. -/
theorem exists_utf8_normalize :
    ∃ kept, kept.Sublist (lead.body tail) ∧
      (utf8 (normalize text) = lead.front ++ kept ∨ utf8 (normalize text) = kept) := by
  obtain ⟨keptChars, hchars, hnormal⟩ :=
    isLeft_normalizeChars (lead.not_mem_map_front (Or.inl rfl))
      (lead.not_mem_map_front (Or.inr rfl)) ((lead.body tail).map Char.ofUInt8)
  obtain ⟨kept, hkept, rfl⟩ := List.sublist_map_iff.1 hchars
  rw [← toList_of_opens hopens] at hnormal
  have hencode : ∀ part ⊆ utf8 text, normalizeChars text.toList = part.map Char.ofUInt8 →
      utf8 (normalize text) = part := by
    intro part hpart hchars
    rw [utf8_eq_flatMap, toList_normalize, hchars]
    exact flatMap_utf8EncodeChar_map_ofUInt8 fun byte hbyte =>
      hopens.byte_lt_of_tail byte (hpart hbyte)
  have hbytes := hopens.eq_front_append_body
  refine ⟨kept, hkept, ?_⟩
  rcases hnormal with hnormal | hnormal
  · left
    apply hencode
    · rw [hbytes]
      exact ((List.Sublist.refl _).append hkept).subset
    · rw [hnormal, List.map_append]
  · right
    apply hencode
    · rw [hbytes]
      exact (hkept.trans (List.sublist_append_right _ _)).subset
    · exact hnormal

/-- A pattern text has no end anchor in front of the last one, so its normal form does not end
with a wildcard and an end anchor. -/
theorem not_suffix_normalizeChars_of_opens : ¬ ['*', '|'] <:+ normalizeChars text.toList := by
  intro htail
  have htwice := (tail_suffix_normalizeChars_iff.1 htail).2.sublist.trans
    ((inner_isInfix text.toList).sublist.trans (collapseStars_sublist text.toList))
  rw [toList_of_opens hopens, List.sublist_append_iff] at htwice
  obtain ⟨inFront, behind, hsplit, hfront, hbehind⟩ := htwice
  have hnone : inFront = [] := by
    cases inFront with
    | nil => rfl
    | cons c others =>
        obtain rfl : '*' = c := List.head_eq_of_cons_eq hsplit
        have hmem := hfront.subset List.mem_cons_self
        exact absurd hmem (lead.not_mem_map_front (Or.inl rfl))
  rw [hnone, List.nil_append] at hsplit
  rw [← hsplit] at hbehind
  obtain ⟨bytes, hbytes, hchars⟩ := List.sublist_map_iff.1 hbehind
  have hread : [Byte.star, Byte.bar, Byte.star, Byte.bar] = bytes :=
    ofUInt8_injective.list_map hchars
  have hbar := (hopens.isBody tail).bar_last.sublist hbytes
  rw [← hread] at hbar
  exact absurd hbar (by decide)

/-- The normal form of a pattern text is one. -/
theorem exists_opens_normalize :
    ∃ (other : Lead) (otherTail : Bool),
      other.Opens (utf8 (normalize text)) (if otherTail then [Byte.bar] else []) := by
  obtain ⟨other, rest, hother, hrest⟩ := Lead.exists_opens (utf8 (normalize text))
  -- What stands behind the tokens of the normal form stands behind the anchor of the text.
  have hbody : IsBody rest := by
    obtain ⟨kept, hkept, hnormal⟩ := exists_utf8_normalize hopens
    have hback : rest <:+ utf8 (normalize text) := ⟨_, hother.text_eq.symm⟩
    suffices hbehind : rest <:+ kept from
      (hopens.isBody tail).sublist (hbehind.sublist.trans hkept)
    rcases hnormal with hnormal | hnormal
    · have hkeptBack : kept <:+ utf8 (normalize text) := ⟨_, hnormal.symm⟩
      refine List.suffix_of_suffix_length_le hback hkeptBack ?_
      have hfront := hother.length_front_le ⟨kept, hnormal.symm⟩
      have hlength := congrArg List.length (hother.text_eq.symm.trans hnormal)
      simp only [Lead.bytes, Lead.front, List.length_append] at hfront hlength
      omega
    · rwa [hnormal] at hback
  rcases hrest with rfl | rfl | ⟨delay, hstuck⟩
  · exact ⟨other, false, hother⟩
  · exact ⟨other, true, hother⟩
  · have hends := hother.map_suffix_toList hbody.byte_lt
    rw [toList_normalize] at hends
    rcases hbody.eq_of_stuck hstuck with rfl | rfl
    · exact absurd hends (no_star_normalizeChars text.toList).2
    · exact absurd hends (not_suffix_normalizeChars_of_opens hopens)

/-- It needs no more instructions: every one of its tokens has a byte of its own that is no
wildcard. -/
theorem emitted_le_of_opens_normalize {other : Lead} {otherTail : Bool}
    (hother : other.Opens (utf8 (normalize text)) (if otherTail then [Byte.bar] else [])) :
    other.emitted + (if otherTail then 1 else 0) ≤ lead.emitted + if tail then 1 else 0 := by
  have hsigns : signCount (utf8 (normalize text)) ≤ signCount (utf8 text) := by
    obtain ⟨kept, hkept, hnormal⟩ := exists_utf8_normalize hopens
    have hsublist : (utf8 (normalize text)).Sublist (lead.front ++ lead.body tail) := by
      rcases hnormal with hnormal | hnormal
      · rw [hnormal]
        exact (List.Sublist.refl lead.front).append hkept
      · rw [hnormal]
        exact hkept.trans (List.sublist_append_right lead.front _)
    rw [hopens.eq_front_append_body]
    exact hsublist.countP_le
  have hrun : ¬ [Byte.star, Byte.star] <:+: utf8 (normalize text) := by
    rw [star_run_infix_utf8_iff, toList_normalize]
    exact no_run_normalizeChars text.toList
  have hplain : ∀ token ∈ other.tokens, token.atom.byte ≠ Byte.star :=
    fun token htoken => hother.atom_byte_ne_star hrun htoken
  have hmark : lead.markBytes.length ≤ other.markBytes.length := by
    cases hmarked : lead.marked with
    | false => simp [Lead.markBytes, hmarked]
    | true =>
        have hmarkBytes : lead.markBytes = exceptionMark := if_pos hmarked
        have hfront : exceptionMark <+: utf8 text := by
          rw [hopens.text_eq, Lead.bytes, hmarkBytes, List.append_assoc, List.append_assoc]
          exact List.prefix_append _ _
        have hnormal : exceptionMark <+: utf8 (normalize text) := by
          rw [exceptionMark_prefix_utf8_iff] at hfront ⊢
          rw [toList_normalize]
          exact mark_prefix_normalizeChars_iff.2 (Or.inl hfront)
        have hotherBytes : other.markBytes = exceptionMark := if_pos (hother.mark_taken hnormal)
        rw [hmarkBytes, hotherBytes]
  have hlead := signCount_flatMap_le lead.tokens
  rw [hother.eq_front_append_body, hopens.eq_front_append_body,
    Lead.signCount_front_append_body, Lead.signCount_front_append_body,
    signCount_flatMap_eq hplain] at hsigns
  rw [Lead.emitted, Lead.emitted]
  omega

end Normal

/-- Normalizing never turns a pattern text into one that does not compile.  The normal form of a
text that compiles compiles too, to no more instructions. -/
theorem exists_compile_normalize {text : String} {flags : Flags}
    {instructions : List Instruction} (hcompile : compile text flags = .ok instructions) :
    ∃ others, compile (normalize text) flags = .ok others ∧
      others.length ≤ instructions.length := by
  obtain ⟨lead, tail, hopens, rfl, hsize⟩ := compile_eq_ok_iff.1 hcompile
  obtain ⟨other, otherTail, hother⟩ := exists_opens_normalize hopens
  have hle := emitted_le_of_opens_normalize hopens hother
  have hlength : ((other.pattern otherTail).instructions (flags.contains .matchCase)).length ≤
      ((lead.pattern tail).instructions (flags.contains .matchCase)).length := by
    rw [Lead.length_instructions, Lead.length_instructions]
    exact Nat.add_le_add_right hle 1
  have hnormal := compile_eq_ok_iff.2 ⟨other, otherTail, hother, rfl, hlength.trans hsize⟩
  exact ⟨_, hnormal, hlength⟩

/-- A text with a wildcard in front of a mark, a wildcard that looks for a wildcard, and a
separator in front of the end anchor. -/
theorem compile_normalize_hidden_mark :
    let text := "*@@a***b^|"
    let flags := Flags.empty.insert .matchCase
    let instructions : List Instruction :=
      [⟨.skipTo, 0x40⟩, ⟨.char, 0x40⟩, ⟨.char, 0x61⟩, ⟨.skipTo, 0x2a⟩, ⟨.skipTo, 0x62⟩,
        ⟨.char, Operand.separator⟩, Instruction.tail, Instruction.accept]
    compile text flags = .ok instructions ∧ normalize text = "@@a*b^" ∧
      ∃ others, compile (normalize text) flags = .ok others ∧
        others.length ≤ instructions.length := by
  intro text flags instructions
  have hcompile : compile text flags = .ok instructions := by decide +kernel
  exact ⟨hcompile, by decide +kernel, exists_compile_normalize hcompile⟩

end Pattern

end UrlFilter
