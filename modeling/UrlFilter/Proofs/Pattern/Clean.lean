/-
Clean patterns.

The pattern of a filter is read from a normal form, and no dollar sign is in that.
So its atoms are separators and plain bytes, also behind a wildcard, and no
separator stands in front of an end anchor.
-/
import UrlFilter.Proofs.Pattern.Plain

namespace UrlFilter

namespace Pattern

/-- A pattern of separators and plain bytes without a separator in front of the end
anchor. -/
structure IsClean (pattern : Pattern) : Prop where
  atom_plain : ∀ token ∈ pattern.tokens, token.atom.IsPlain
  no_separator_before_tail : pattern.tail = true →
    ∀ token, pattern.tokens.getLast? = some token → token.atom ≠ .separator

namespace Lead

section Opens

variable {lead : Lead} {text rest : List UInt8} (hopens : lead.Opens text rest)
include hopens

/-- A lead is ASCII. -/
theorem Opens.byte_lt_of_mem_bytes : ∀ byte ∈ lead.bytes, byte < 0x80 := by
  intro byte hbyte
  rw [Lead.bytes, List.mem_append, List.mem_append] at hbyte
  rcases hbyte with (hbyte | hbyte) | hbyte
  · have hmark : ∀ other ∈ exceptionMark, other = Byte.commercialAt := by
      simp [exceptionMark]
    rw [markBytes] at hbyte
    split at hbyte
    · rw [hmark byte hbyte]
      decide
    · exact absurd hbyte List.not_mem_nil
  · rw [Anchor.eq_bar_of_mem_bytes hbyte]
    decide
  · exact (Token.bytes_bounds hopens.tokens_writable byte hbyte).1

/-- A text is ASCII if what stands behind the lead is. -/
theorem Opens.byte_lt (hrest : ∀ byte ∈ rest, byte < 0x80) : ∀ byte ∈ text, byte < 0x80 := by
  intro byte hbyte
  rw [hopens.text_eq, List.mem_append] at hbyte
  rcases hbyte with hbyte | hbyte
  · exact hopens.byte_lt_of_mem_bytes byte hbyte
  · exact hrest byte hbyte

theorem Opens.bytes_isInfix {token : Token} (htoken : token ∈ lead.tokens) :
    token.bytes <:+: text := by
  obtain ⟨before, behind, htokens⟩ := List.append_of_mem htoken
  rw [hopens.text_eq, Lead.bytes, htokens]
  exact ⟨lead.markBytes ++ lead.anchor.bytes ++ before.flatMap Token.bytes,
    behind.flatMap Token.bytes ++ rest, by simp⟩

/-- Without two wildcards side by side, no token asks for the byte of a wildcard. -/
theorem Opens.atom_ne_star (hrun : ¬ [Byte.star, Byte.star] <:+: text) {token : Token}
    (htoken : token ∈ lead.tokens) : token.atom ≠ .literal Byte.star := by
  have hwritable := hopens.tokens_writable token htoken
  have hinside := hopens.bytes_isInfix htoken
  cases token with
  | here atom => exact hwritable.2
  | seek atom =>
      intro hatom
      rw [Token.atom] at hatom
      rw [hatom] at hinside
      exact hrun hinside

theorem Opens.atom_byte_ne_star (hrun : ¬ [Byte.star, Byte.star] <:+: text) {token : Token}
    (htoken : token ∈ lead.tokens) : token.atom.byte ≠ Byte.star := by
  have hatom := hopens.atom_ne_star hrun htoken
  generalize token.atom = atom at hatom
  cases atom with
  | separator => decide
  | literal byte => exact fun hbyte => hatom (congrArg Atom.literal hbyte)

theorem Opens.atom_isPlain (hrun : ¬ [Byte.star, Byte.star] <:+: text)
    (hdollar : Byte.dollar ∉ text) : ∀ token ∈ lead.tokens, token.atom.IsPlain := by
  intro token htoken
  have hinside := hopens.bytes_isInfix htoken
  have hbyte : token.atom.byte ∈ text := by
    obtain ⟨front, -, hbytes⟩ := token.exists_bytes_eq
    exact hinside.subset (by simp [hbytes])
  have hstar := hopens.atom_ne_star hrun htoken
  have hatom := (hopens.tokens_writable token htoken).atom_isWritable
  generalize token.atom = atom at hatom hbyte hstar
  cases atom with
  | separator => trivial
  | literal byte =>
      refine ⟨hatom, fun heq => hstar (congrArg Atom.literal heq), ?_⟩
      intro heq
      subst heq
      exact hdollar hbyte

theorem Opens.atom_ne_separator (hrest : rest = [Byte.bar])
    (hsuffix : ¬ [Byte.caret, Byte.bar] <:+ text) {token : Token}
    (hlast : lead.tokens.getLast? = some token) : token.atom ≠ .separator := by
  intro hseparator
  obtain ⟨others, hothers⟩ := List.getLast?_eq_some_iff.1 hlast
  obtain ⟨front, -, hbytes⟩ := token.exists_bytes_eq
  rw [hseparator] at hbytes
  apply hsuffix
  rw [hopens.text_eq, Lead.bytes, hothers, hrest]
  exact ⟨lead.markBytes ++ lead.anchor.bytes ++ others.flatMap Token.bytes ++ front,
    by simp [hbytes, Atom.byte]⟩

end Opens

/-- A text that is all lead but for the end anchor is ASCII. -/
theorem Opens.byte_lt_of_tail {lead : Lead} {text : List UInt8} {tail : Bool}
    (hopens : lead.Opens text (if tail then [Byte.bar] else [])) :
    ∀ byte ∈ text, byte < 0x80 := by
  apply hopens.byte_lt
  cases tail with
  | false => exact fun _ hbyte => absurd hbyte List.not_mem_nil
  | true => exact List.forall_mem_singleton.2 (by decide)

/-- What stands behind the lead ends the characters of the text, if it is ASCII. -/
theorem Opens.map_suffix_toList {lead : Lead} {text : String} {rest : List UInt8}
    (hopens : lead.Opens (utf8 text) rest) (hrest : ∀ byte ∈ rest, byte < 0x80) :
    rest.map Char.ofUInt8 <:+ text.toList := by
  rw [toList_eq_map_of_ascii (hopens.byte_lt hrest), hopens.text_eq, List.map_append]
  exact List.suffix_append _ _

end Lead

/-- The instructions that a normal form without a dollar sign compiles to are those
of a clean pattern. -/
theorem exists_isClean_of_compile {text : String} {flags : Flags}
    {instructions : List Instruction} (hrun : ¬ ['*', '*'] <:+: text.toList)
    (hsuffix : ¬ ['^', '|'] <:+ text.toList) (hdollar : '$' ∉ text.toList)
    (hcompile : compile text flags = .ok instructions) :
    ∃ pattern : Pattern, pattern.IsClean ∧
      instructions = pattern.instructions (flags.contains .matchCase) ∧
      instructions.length ≤ instructionLimit := by
  obtain ⟨lead, tail, hopens, hinstructions, hsize⟩ := compile_eq_ok_iff.1 hcompile
  have hchars := toList_eq_map_of_ascii hopens.byte_lt_of_tail
  rw [hchars] at hrun hsuffix
  have hdollarAscii : Byte.dollar < 0x80 := by decide
  have hatom := hopens.atom_isPlain (fun h => hrun (h.map Char.ofUInt8))
    fun h => hdollar ((mem_utf8_iff hdollarAscii).1 h)
  refine ⟨lead.pattern tail, ⟨hatom, ?_⟩, hinstructions, hsize⟩
  intro htail token hlast
  have hbar : (if tail then [Byte.bar] else []) = [Byte.bar] := if_pos htail
  exact hopens.atom_ne_separator hbar (fun h => hsuffix (h.map Char.ofUInt8)) hlast

end Pattern

/-- The pattern of a line is the normal form of what stands in front of the first dollar
sign. -/
theorem Filter.toList_pattern_ofText (line : String) :
    (Filter.ofText line).pattern.toList =
      Pattern.normalizeChars (line.toList.takeWhile (· != '$')) := by
  rw [pattern, Pattern.toList_normalize, ofText, String.toList_ofList]

/-- The pattern text of a line compiles to the instructions of a clean pattern. -/
theorem Filter.exists_isClean_of_compile {line : String}
    {instructions : List Instruction}
    (hcompile : Pattern.compile (Filter.ofText line).pattern (Filter.ofText line).flags =
      .ok instructions) :
    ∃ pattern : Pattern, pattern.IsClean ∧
      instructions =
        pattern.instructions ((Filter.ofText line).flags.contains .matchCase) ∧
      instructions.length ≤ instructionLimit := by
  have hpattern := Filter.toList_pattern_ofText line
  apply Pattern.exists_isClean_of_compile _ _ _ hcompile
  · rw [hpattern]
    exact Pattern.no_run_normalizeChars _
  · rw [hpattern]
    exact Pattern.not_suffix_normalizeChars _
  · rw [hpattern]
    intro hmem
    have hkept := Pattern.normalizeChars_subset _ hmem
    simpa using List.mem_takeWhile_imp hkept

end UrlFilter
