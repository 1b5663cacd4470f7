/-
Plain tokens.

A token is plain if its byte may stand in a plain line as itself.  The text of an
anchor and plain tokens is ASCII without a dollar sign.  It is in normal form
unless it begins with a wildcard, since each token ends with its own byte and that
byte is no wildcard and no bar.
-/
import UrlFilter.Proofs.Line.Plain
import UrlFilter.Proofs.Pattern.Grammar
import UrlFilter.Proofs.Text.Ascii

namespace UrlFilter

/-- Is the atom a separator or a byte that a plain line may contain? -/
def Atom.IsPlain : Atom → Prop
  | separator => True
  | literal byte => IsPlainByte byte

instance : DecidablePred Atom.IsPlain
  | .separator => inferInstanceAs (Decidable True)
  | .literal byte => inferInstanceAs (Decidable (IsPlainByte byte))

/-- What a token asks of a byte. -/
def Token.atom : Token → Atom
  | here atom => atom
  | seek atom => atom

namespace Atom

theorem IsPlain.isWritable {atom : Atom} (hatom : atom.IsPlain) :
    atom.IsWritable := by
  cases atom with
  | separator => trivial
  | literal byte => exact hatom.1

theorem IsPlain.byte_ne_star {atom : Atom} (hatom : atom.IsPlain) :
    atom.byte ≠ Byte.star := by
  cases atom with
  | separator => decide
  | literal byte => exact hatom.2.1

theorem IsPlain.byte_ne_dollar {atom : Atom} (hatom : atom.IsPlain) :
    atom.byte ≠ Byte.dollar := by
  cases atom with
  | separator => decide
  | literal byte => exact hatom.2.2

theorem IsWritable.byte_lt {atom : Atom} (hatom : atom.IsWritable) :
    atom.byte < 0x80 := by
  cases atom with
  | separator => decide
  | literal byte =>
      have hbounds := isUrlByte_bounds hatom
      rw [UInt8.lt_iff_toNat_lt]
      simp only [UInt8.le_iff_toNat_le, UInt8.reduceToNat] at hbounds ⊢
      exact Nat.lt_of_le_of_lt hbounds.2 (by decide)

end Atom

namespace Token

theorem isWritable_of_isPlain {token : Token} (htoken : token.atom.IsPlain) :
    token.IsWritable := by
  cases token with
  | here atom =>
      refine ⟨htoken.isWritable, ?_⟩
      intro hstar
      subst hstar
      exact htoken.byte_ne_star rfl
  | seek atom => exact htoken.isWritable

theorem IsWritable.atom_isWritable {token : Token} (htoken : token.IsWritable) :
    token.atom.IsWritable := by
  cases token with
  | here atom => exact htoken.1
  | seek atom => exact htoken

/-- The text of a token ends with the byte of its atom, and only a wildcard stands
in front of it. -/
theorem exists_bytes_eq (token : Token) :
    ∃ front ⊆ [Byte.star], token.bytes = front ++ [token.atom.byte] := by
  cases token with
  | here atom => exact ⟨[], List.nil_subset _, rfl⟩
  | seek atom => exact ⟨[Byte.star], List.Subset.refl _, rfl⟩

theorem mem_flatMap_bytes {tokens : List Token} {byte : UInt8}
    (hbyte : byte ∈ tokens.flatMap bytes) :
    byte = Byte.star ∨ ∃ token ∈ tokens, byte = token.atom.byte := by
  obtain ⟨token, htoken, hbyte⟩ := List.mem_flatMap.1 hbyte
  obtain ⟨front, hfront, hbytes⟩ := token.exists_bytes_eq
  rw [hbytes, List.mem_append] at hbyte
  rcases hbyte with hbyte | hbyte
  · exact Or.inl (List.mem_singleton.1 (hfront hbyte))
  · exact Or.inr ⟨token, htoken, List.mem_singleton.1 hbyte⟩

/-- The text of tokens is ASCII without a bar. -/
theorem bytes_bounds {tokens : List Token}
    (hwritable : ∀ token ∈ tokens, token.IsWritable) :
    ∀ byte ∈ tokens.flatMap bytes, byte < 0x80 ∧ byte ≠ Byte.bar := by
  intro byte hbyte
  rcases mem_flatMap_bytes hbyte with rfl | ⟨token, htoken, rfl⟩
  · decide
  · have hatom := (hwritable token htoken).atom_isWritable
    exact ⟨hatom.byte_lt, Atom.byte_ne_bar hatom⟩

/-- The text of tokens ends with the byte of the last one. -/
theorem exists_flatMap_bytes_eq {tokens : List Token} (hne : tokens ≠ []) :
    ∃ front, ∃ token ∈ tokens, tokens.flatMap bytes = front ++ [token.atom.byte] := by
  obtain ⟨others, last, hconcat⟩ := List.eq_nil_or_concat tokens |>.resolve_left hne
  obtain ⟨front, -, hbytes⟩ := last.exists_bytes_eq
  refine ⟨others.flatMap bytes ++ front, last, ?_, ?_⟩
  · simp [hconcat]
  · simp [hconcat, hbytes]

end Token

theorem Anchor.eq_bar_of_mem_bytes {anchor : Anchor} {byte : UInt8}
    (hbyte : byte ∈ anchor.bytes) : byte = Byte.bar := by
  cases anchor with
  | anywhere => cases hbyte
  | start => exact List.mem_singleton.1 hbyte
  | host => simpa [Anchor.bytes] using hbyte

/-- A byte that is no wildcard does not start or go on with a run of wildcards. -/
theorem no_run_cons {byte : UInt8} {text : List UInt8} (hbyte : byte ≠ Byte.star)
    (htext : ¬ [Byte.star, Byte.star] <:+: text) :
    ¬ [Byte.star, Byte.star] <:+: byte :: text := by
  rw [List.infix_cons_iff, not_or]
  exact ⟨fun hfront => hbyte (List.cons_prefix_cons.1 hfront).1.symm, htext⟩

section Plain

variable {tokens : List Token} (hplain : ∀ token ∈ tokens, token.atom.IsPlain)
include hplain

theorem bytes_bounds_of_isPlain (anchor : Anchor) :
    ∀ byte ∈ anchor.bytes ++ tokens.flatMap Token.bytes,
      byte < 0x80 ∧ byte ≠ Byte.dollar := by
  intro byte hbyte
  rcases List.mem_append.1 hbyte with hbyte | hbyte
  · rw [Anchor.eq_bar_of_mem_bytes hbyte]
    decide
  · rcases Token.mem_flatMap_bytes hbyte with rfl | ⟨token, htoken, rfl⟩
    · decide
    · have hatom := hplain token htoken
      exact ⟨hatom.isWritable.byte_lt, hatom.byte_ne_dollar⟩

theorem no_run_flatMap_bytes :
    ¬ [Byte.star, Byte.star] <:+: tokens.flatMap Token.bytes := by
  induction tokens with
  | nil => simp
  | cons token tokens ih =>
      have hbyte := (hplain token List.mem_cons_self).byte_ne_star
      have hrest := ih fun other hother => hplain other (List.mem_cons_of_mem _ hother)
      have hown := no_run_cons hbyte hrest
      cases token with
      | here atom => exact hown
      | seek atom =>
          -- The wildcard of the token has the byte of its atom behind it.
          change ¬ _ <:+: Byte.star :: atom.byte :: tokens.flatMap Token.bytes
          rw [List.infix_cons_iff, not_or]
          refine ⟨fun hfront => hbyte ?_, hown⟩
          have hnext := (List.cons_prefix_cons.1 hfront).2
          exact (List.cons_prefix_cons.1 hnext).1.symm

theorem no_run_bytes (anchor : Anchor) :
    ¬ [Byte.star, Byte.star] <:+: anchor.bytes ++ tokens.flatMap Token.bytes := by
  have hbar : Byte.bar ≠ Byte.star := by decide
  have htokens := no_run_flatMap_bytes hplain
  cases anchor with
  | anywhere => exact htokens
  | start => exact no_run_cons hbar htokens
  | host => exact no_run_cons hbar (no_run_cons hbar htokens)

/-- Unless it is all of an anchor, the text ends with a byte of an atom. -/
theorem not_suffix_bytes (anchor : Anchor) (back : List UInt8) {byte : UInt8}
    (hbyte : byte = Byte.star ∨ byte = Byte.bar)
    (hanchor : ¬ back ++ [byte] <:+ anchor.bytes) :
    ¬ back ++ [byte] <:+ anchor.bytes ++ tokens.flatMap Token.bytes := by
  by_cases htokens : tokens = []
  · rwa [htokens, List.flatMap_nil, List.append_nil]
  · obtain ⟨front, token, htoken, hbytes⟩ := Token.exists_flatMap_bytes_eq htokens
    rw [hbytes]
    intro hsuffix
    obtain ⟨others, hothers⟩ := hsuffix
    have hlast : byte = token.atom.byte := by
      simpa using congrArg List.getLast? hothers
    have hatom := hplain token htoken
    rcases hbyte with rfl | rfl
    · exact hatom.byte_ne_star hlast.symm
    · exact Atom.byte_ne_bar hatom.isWritable hlast.symm

theorem head?_flatMap_bytes_ne {byte : UInt8}
    (hbyte : byte = Byte.star ∨ byte = Byte.bar)
    (hseek : ∀ atom, tokens.head? ≠ some (.seek atom)) :
    (tokens.flatMap Token.bytes).head? ≠ some byte := by
  cases tokens with
  | nil => simp
  | cons token tokens =>
      cases token with
      | seek atom => exact absurd rfl (hseek atom)
      | here atom =>
          have hatom : atom.IsPlain := hplain _ List.mem_cons_self
          intro hhead
          have hbyteAtom : atom.byte = byte := Option.some.inj hhead
          rcases hbyte with rfl | rfl
          · exact hatom.byte_ne_star hbyteAtom
          · exact Atom.byte_ne_bar hatom.isWritable hbyteAtom

theorem not_prefix_star_bytes (anchor : Anchor)
    (hseek : ∀ atom, tokens.head? ≠ some (.seek atom)) :
    ¬ [Byte.star] <+: anchor.bytes ++ tokens.flatMap Token.bytes := by
  rw [List.singleton_prefix_iff_head?_eq_some]
  cases anchor with
  | anywhere => exact head?_flatMap_bytes_ne hplain (Or.inl rfl) hseek
  | start => exact fun h => absurd (Option.some.inj h) (by decide)
  | host => exact fun h => absurd (Option.some.inj h) (by decide)

theorem not_prefix_bar_star_bytes (anchor : Anchor)
    (hseek : ∀ atom, tokens.head? ≠ some (.seek atom)) :
    ¬ [Byte.bar, Byte.star] <+: anchor.bytes ++ tokens.flatMap Token.bytes := by
  intro hfront
  cases anchor with
  | anywhere =>
      obtain ⟨rest, hrest⟩ := hfront
      have hhead := (congrArg List.head? hrest).symm
      exact head?_flatMap_bytes_ne hplain (Or.inr rfl) hseek hhead
  | start =>
      have hnext := (List.cons_prefix_cons.1 hfront).2
      rw [List.singleton_prefix_iff_head?_eq_some] at hnext
      exact head?_flatMap_bytes_ne hplain (Or.inl rfl) hseek hnext
  | host =>
      have hnext := (List.cons_prefix_cons.1 hfront).2
      exact absurd (List.cons_prefix_cons.1 hnext).1 (by decide)

/-- The text of an anchor and plain tokens that do not begin with a wildcard has
nothing to normalize. -/
theorem isNormal_of_isPlain {line : String} {anchor : Anchor}
    (htext : utf8 line = anchor.bytes ++ tokens.flatMap Token.bytes)
    (hseek : ∀ atom, tokens.head? ≠ some (.seek atom)) :
    Pattern.IsNormal line.toList := by
  have hbytes : anchor.bytes ++ tokens.flatMap Token.bytes =
      line.toList.map Char.toUInt8 := by
    rw [← htext]
    apply utf8_eq_map_of_ascii
    rw [htext]
    exact fun byte hbyte => (bytes_bounds_of_isPlain hplain anchor byte hbyte).1
  have hstar : Byte.star = Byte.star ∨ Byte.star = Byte.bar := Or.inl rfl
  have hbar : Byte.bar = Byte.star ∨ Byte.bar = Byte.bar := Or.inr rfl
  have hrun := no_run_bytes hplain anchor
  have hback := not_suffix_bytes hplain anchor [] hstar
  have hbeforeTail := not_suffix_bytes hplain anchor [Byte.star] hbar
  have hseparator := not_suffix_bytes hplain anchor [Byte.caret] hbar
  have hfront := not_prefix_star_bytes hplain anchor hseek
  have hbehindStart := not_prefix_bar_star_bytes hplain anchor hseek
  rw [hbytes] at hrun hback hbeforeTail hseparator hfront hbehindStart
  exact {
    no_run := fun h => hrun (h.map Char.toUInt8)
    no_star_back := fun h => hback (by cases anchor <;> decide) (h.map Char.toUInt8)
    no_star_front := fun h => hfront (h.map Char.toUInt8)
    no_star_before_tail := fun h =>
      hbeforeTail (by cases anchor <;> decide) (h.map Char.toUInt8)
    no_star_behind_start := fun h => hbehindStart (h.map Char.toUInt8)
    no_separator_before_tail := fun h =>
      hseparator (by cases anchor <;> decide) (h.map Char.toUInt8) }

end Plain

end UrlFilter
