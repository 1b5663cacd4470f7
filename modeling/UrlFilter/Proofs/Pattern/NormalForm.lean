/-
What normalizing leaves of a pattern text.

Normalizing collapses the runs of wildcards and then only takes characters away
at the two ends, so the normal form is a part of the collapsed text: no two
wildcards stand side by side in it.  The last step looks at the end anchor, so
no separator stands in front of it.
-/
import UrlFilter.Pattern.Normal
import Mathlib.Data.List.Infix

namespace UrlFilter

namespace Pattern

@[simp]
theorem toList_normalize (text : String) :
    (normalize text).toList = normalizeChars text.toList := by
  rw [normalize, String.toList_ofList]

theorem stripFront_eq_self {front text : List Char} (h : ¬ front <+: text) :
    stripFront front text = text := by
  have hnone : front.isPrefixOf? text = none := by
    rw [Option.eq_none_iff_forall_ne_some]
    intro rest hrest
    exact h ⟨rest, List.isPrefixOf?_eq_some_iff_append_eq.1 hrest⟩
  rw [stripFront, hnone]
  rfl

theorem stripBack_eq_self {back text : List Char} (h : ¬ back <:+ text) :
    stripBack back text = text := by
  have hnone : back.isSuffixOf? text = none := by
    rw [Option.eq_none_iff_forall_ne_some]
    intro rest hrest
    exact h ⟨rest, List.isSuffixOf?_eq_some_iff_append_eq.1 hrest⟩
  rw [stripBack, hnone]
  rfl

theorem stripFront_append (front rest : List Char) :
    stripFront front (front ++ rest) = rest := by
  rw [stripFront, List.isPrefixOf?_eq_some_iff_append_eq.2 rfl]
  rfl

theorem stripBack_append (rest back : List Char) :
    stripBack back (rest ++ back) = rest := by
  rw [stripBack, List.isSuffixOf?_eq_some_iff_append_eq.2 rfl]
  rfl

theorem stripFront_isSuffix (front text : List Char) : stripFront front text <:+ text := by
  rw [stripFront]
  cases hfront : front.isPrefixOf? text with
  | none => exact List.suffix_refl text
  | some rest => exact ⟨front, List.isPrefixOf?_eq_some_iff_append_eq.1 hfront⟩

theorem stripBack_isPrefix (back text : List Char) : stripBack back text <+: text := by
  rw [stripBack]
  cases hback : back.isSuffixOf? text with
  | none => exact List.prefix_refl text
  | some rest => exact ⟨back, List.isSuffixOf?_eq_some_iff_append_eq.1 hback⟩

theorem dropTailAfterSeparator_isPrefix (text : List Char) :
    dropTailAfterSeparator text <+: text := by
  rw [dropTailAfterSeparator]
  split
  · rename_i front hfront
    have htext := List.isSuffixOf?_eq_some_iff_append_eq.1 hfront
    exact ⟨['|'], by rw [← htext, List.append_assoc]; rfl⟩
  · exact List.prefix_refl text

theorem dropTailAfterSeparator_eq_self {text : List Char} (h : ¬ ['^', '|'] <:+ text) :
    dropTailAfterSeparator text = text := by
  have hnone : ['^', '|'].isSuffixOf? text = none := by
    rw [Option.eq_none_iff_forall_ne_some]
    intro rest hrest
    exact h ⟨rest, List.isSuffixOf?_eq_some_iff_append_eq.1 hrest⟩
  rw [dropTailAfterSeparator, hnone]

theorem dropTailAfterSeparator_append (rest : List Char) :
    dropTailAfterSeparator (rest ++ ['^', '|']) = rest ++ ['^'] := by
  rw [dropTailAfterSeparator, List.isSuffixOf?_eq_some_iff_append_eq.2 rfl]

/-- Behind the last step no separator stands in front of an end anchor. -/
theorem not_suffix_dropTailAfterSeparator (text : List Char) :
    ¬ ['^', '|'] <:+ dropTailAfterSeparator text := by
  intro hsuffix
  by_cases htail : ['^', '|'] <:+ text
  · obtain ⟨front, rfl⟩ := htail
    rw [dropTailAfterSeparator_append] at hsuffix
    obtain ⟨others, hothers⟩ := hsuffix
    have hlast := congrArg List.getLast? hothers
    simp at hlast
  · rw [dropTailAfterSeparator_eq_self htail] at hsuffix
    exact htail hsuffix

theorem collapseStars_cons (c : Char) (text : List Char) :
    collapseStars (c :: text) =
      if c = '*' ∧ (collapseStars text).head? = some '*' then collapseStars text
      else c :: collapseStars text := rfl

/-- In a collapsed text no two wildcards stand side by side. -/
theorem no_run_collapseStars (text : List Char) :
    ¬ ['*', '*'] <:+: collapseStars text := by
  induction text with
  | nil => simp [collapseStars]
  | cons c text ih =>
      rw [collapseStars_cons]
      split
      · exact ih
      · rename_i hkept
        rw [List.infix_cons_iff]
        intro hrun
        rcases hrun with hfront | hinside
        · rw [List.cons_prefix_cons, List.singleton_prefix_iff_head?_eq_some] at hfront
          exact hkept ⟨hfront.1.symm, hfront.2⟩
        · exact ih hinside

/-- A text without neighbouring wildcards is collapsed already. -/
theorem collapseStars_eq_self {text : List Char} (h : ¬ ['*', '*'] <:+: text) :
    collapseStars text = text := by
  induction text with
  | nil => rfl
  | cons c text ih =>
      rw [List.infix_cons_iff, not_or] at h
      rw [collapseStars_cons, ih h.2, if_neg]
      rintro ⟨rfl, hhead⟩
      apply h.1
      rw [List.cons_prefix_cons, List.singleton_prefix_iff_head?_eq_some]
      exact ⟨rfl, hhead⟩

theorem collapseStars_subset (text : List Char) : collapseStars text ⊆ text := by
  induction text with
  | nil => exact List.Subset.refl []
  | cons c text ih =>
      rw [collapseStars_cons]
      split
      · exact List.subset_cons_of_subset c ih
      · exact List.cons_subset_cons c ih

/-- The steps behind the first one only take characters away at the two ends. -/
theorem normalizeChars_isInfix (text : List Char) :
    normalizeChars text <:+: collapseStars text := by
  rw [normalizeChars]
  refine (dropTailAfterSeparator_isPrefix _).isInfix.trans ?_
  refine (stripFront_isSuffix _ _).isInfix.trans ?_
  refine (stripBack_isPrefix _ _).isInfix.trans ?_
  refine (stripFront_isSuffix _ _).isInfix.trans ?_
  exact (stripBack_isPrefix _ _).isInfix

theorem normalizeChars_subset (text : List Char) : normalizeChars text ⊆ text :=
  List.Subset.trans (normalizeChars_isInfix text).subset (collapseStars_subset text)

theorem no_run_normalizeChars (text : List Char) :
    ¬ ['*', '*'] <:+: normalizeChars text :=
  fun hinside => no_run_collapseStars text (hinside.trans (normalizeChars_isInfix text))

theorem not_suffix_normalizeChars (text : List Char) :
    ¬ ['^', '|'] <:+ normalizeChars text :=
  not_suffix_dropTailAfterSeparator _

/-- A text without any of the edges that normalizing removes. -/
structure IsNormal (text : List Char) : Prop where
  no_run : ¬ ['*', '*'] <:+: text
  no_star_back : ¬ ['*'] <:+ text
  no_star_front : ¬ ['*'] <+: text
  no_star_before_tail : ¬ ['*', '|'] <:+ text
  no_star_behind_start : ¬ ['|', '*'] <+: text
  no_separator_before_tail : ¬ ['^', '|'] <:+ text

/-- A text without wildcards and separators has none of these edges. -/
theorem isNormal_of_not_mem {text : List Char} (hstar : '*' ∉ text) (hcaret : '^' ∉ text) :
    IsNormal text where
  no_run := fun h => hstar (h.subset (by decide))
  no_star_back := fun h => hstar (h.subset (by decide))
  no_star_front := fun h => hstar (h.subset (by decide))
  no_star_before_tail := fun h => hstar (h.subset (by decide))
  no_star_behind_start := fun h => hstar (h.subset (by decide))
  no_separator_before_tail := fun h => hcaret (h.subset (by decide))

theorem IsNormal.normalizeChars_eq_self {text : List Char} (h : IsNormal text) :
    normalizeChars text = text := by
  rw [normalizeChars, collapseStars_eq_self h.no_run, stripBack_eq_self h.no_star_back,
    stripFront_eq_self h.no_star_front, stripBack_eq_self h.no_star_before_tail,
    stripFront_eq_self h.no_star_behind_start,
    dropTailAfterSeparator_eq_self h.no_separator_before_tail]

end Pattern

end UrlFilter
