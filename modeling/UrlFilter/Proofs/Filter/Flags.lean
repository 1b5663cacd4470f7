/-
The flags of filters.

A filter has the flags that its options name, and besides them the flag of an exception and
the flag of a domain constraint where these apply.  No option names either of the two.
-/
import UrlFilter.Filter.Basic

namespace UrlFilter

/-- Every bit is that of a flag. -/
theorem Flag.exists_bit_eq (index : Fin 27) : ∃ flag : Flag, flag.bit = index := by
  have hbits : ∀ index : Fin 27, ∃ flag ∈ domain :: allow :: optional, flag.bit = index := by
    decide
  obtain ⟨flag, -, hflag⟩ := hbits index
  exact ⟨flag, hflag⟩

namespace Flags

/-- Sets with the same flags are the same. -/
theorem ext_contains {left right : Flags}
    (h : ∀ flag, left.contains flag = right.contains flag) : left = right := by
  apply Flags.ext
  apply BitVec.eq_of_getLsbD_eq
  intro index hindex
  obtain ⟨flag, hflag⟩ := Flag.exists_bit_eq ⟨index, hindex⟩
  have hbit := h flag
  rwa [contains, contains, hflag] at hbit

/-- Two flags can be added in either order. -/
theorem insert_comm (flags : Flags) (first second : Flag) :
    (flags.insert first).insert second = (flags.insert second).insert first := by
  apply ext_contains
  intro flag
  rw [contains_insert, contains_insert, contains_insert, contains_insert, Bool.or_right_comm]

/-- A flag can be added before or after another one is decided. -/
theorem assign_insert_comm {added assigned : Flag} (hne : added ≠ assigned) (flags : Flags)
    (condition : Bool) :
    (flags.insert added).assign assigned condition =
      (flags.assign assigned condition).insert added := by
  apply ext_contains
  intro flag
  rw [contains_assign, contains_insert, contains_insert, contains_assign]
  by_cases hflag : flag = assigned
  · subst hflag
    simp [hne.symm]
  · rw [if_neg hflag, if_neg hflag]

theorem contains_foldl_insert (flags : Flags) (added : List Flag) (flag : Flag) :
    (added.foldl insert flags).contains flag = true ↔
      flags.contains flag = true ∨ flag ∈ added := by
  induction added generalizing flags with
  | nil => simp only [List.foldl_nil, List.not_mem_nil, or_false]
  | cons other added ih =>
      rw [List.foldl_cons, ih, contains_insert, Bool.or_eq_true, decide_eq_true_eq,
        List.mem_cons, or_assoc]

theorem contains_ofList (flags : List Flag) (flag : Flag) :
    (ofList flags).contains flag = true ↔ flag ∈ flags := by
  rw [ofList, contains_foldl_insert, contains_empty]
  exact or_iff_right Bool.false_ne_true

end Flags

/-- The flag that the text of an option sets is one that options can set. -/
theorem FilterOption.mem_optional_of_flag? {text : List Char} {flag : Flag}
    (h : (ofText text).flag? = some flag) : flag ∈ Flag.optional := by
  unfold ofText at h
  split at h
  · rename_i name hname
    rw [← Option.some.inj h]
    exact List.mem_of_find?_eq_some hname
  · split at h
    · cases h
    · cases h

namespace Filter

theorem mem_optional_of_mem_options {line : String} {option : FilterOption} {flag : Flag}
    (hoption : option ∈ (ofText line).options) (h : option.flag? = some flag) :
    flag ∈ Flag.optional := by
  rw [ofText] at hoption
  dsimp only at hoption
  split at hoption
  · contradiction
  · obtain ⟨text, -, rfl⟩ := List.mem_map.1 hoption
    exact FilterOption.mem_optional_of_flag? h

theorem isException_ofText_iff (line : String) :
    (ofText line).isException = true ↔ ['@', '@'] <+: line.toList.takeWhile (· != '$') := by
  rw [isException, List.isPrefixOf_iff_prefix, ofText, String.toList_ofList]

/-- The flags of a filter are those that its options name, the flag of an exception and the flag
of a domain constraint. -/
theorem contains_flags_iff (filter : Filter) (flag : Flag) :
    filter.flags.contains flag = true ↔
      flag ∈ filter.options.filterMap FilterOption.flag? ∨
        (flag = .allow ∧ filter.isException = true) ∨
          (flag = .domain ∧ filter.clauses ≠ []) := by
  rw [flags, ← Flags.contains_ofList]
  cases hexception : filter.isException <;> cases hclauses : filter.clauses <;>
    simp [or_assoc]

/-- A filter has the flag of an exception exactly if its pattern text starts with the
mark. -/
theorem contains_allow_flags_iff (line : String) :
    (ofText line).flags.contains .allow = true ↔
      ['@', '@'] <+: line.toList.takeWhile (· != '$') := by
  have hnamed : Flag.allow ∉ (ofText line).options.filterMap FilterOption.flag? := by
    rw [List.mem_filterMap]
    rintro ⟨option, hoption, hflag⟩
    exact absurd (mem_optional_of_mem_options hoption hflag) (by decide)
  rw [contains_flags_iff, ← isException_ofText_iff]
  simp [hnamed]

end Filter

end UrlFilter
