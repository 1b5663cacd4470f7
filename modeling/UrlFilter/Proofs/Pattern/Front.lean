/-
Fronts without wildcards and separators.

Every edge that normalizing removes has a wildcard or a separator in it.  So if a text begins with
a front that has neither, the edges at the back end behind the front, and an edge at the front
that is removed takes the whole front with it.  What is left of the text is the front or nothing
of it, and then some of the characters behind it.
-/
import UrlFilter.Proofs.Pattern.Edges

namespace UrlFilter

namespace Pattern

section Front

variable {front : List Char} {c : Char}

/-- A back that begins with a character that is not in the front ends behind the front. -/
theorem cons_suffix_append_iff {back behind : List Char} (hc : c ∉ front) :
    c :: back <:+ front ++ behind ↔ c :: back <:+ behind := by
  constructor
  · rintro ⟨others, hothers⟩
    rcases List.append_eq_append_iff.1 hothers with ⟨shared, hfront, hback⟩ | ⟨rest, -, hbehind⟩
    · cases shared with
      | nil => exact ⟨[], hback⟩
      | cons d shared =>
          rw [List.cons_append, List.cons.injEq] at hback
          exact absurd (by simp [hfront, hback.1]) hc
    · exact ⟨rest, hbehind.symm⟩
  · exact fun h => h.trans (List.suffix_append front behind)

theorem stripBack_append_of_not_mem {back : List Char} (hc : c ∉ front) (behind : List Char) :
    stripBack (c :: back) (front ++ behind) = front ++ stripBack (c :: back) behind := by
  by_cases hback : c :: back <:+ behind
  · obtain ⟨rest, rfl⟩ := hback
    rw [← List.append_assoc, stripBack_append, stripBack_append]
  · rw [stripBack_eq_self hback, stripBack_eq_self (mt (cons_suffix_append_iff hc).1 hback)]

theorem dropTailAfterSeparator_append_of_not_mem (hcaret : '^' ∉ front) (behind : List Char) :
    dropTailAfterSeparator (front ++ behind) = front ++ dropTailAfterSeparator behind := by
  by_cases htail : ['^', '|'] <:+ behind
  · obtain ⟨rest, rfl⟩ := htail
    rw [← List.append_assoc, dropTailAfterSeparator_append, dropTailAfterSeparator_append,
      List.append_assoc]
  · rw [dropTailAfterSeparator_eq_self htail,
      dropTailAfterSeparator_eq_self (mt (cons_suffix_append_iff hcaret).1 htail)]

theorem collapseStars_append_of_not_mem (hstar : '*' ∉ front) (behind : List Char) :
    collapseStars (front ++ behind) = front ++ collapseStars behind := by
  induction front with
  | nil => rfl
  | cons d front ih =>
      rw [List.mem_cons, not_or] at hstar
      rw [List.cons_append, collapseStars_cons, ih hstar.2, if_neg fun h => hstar.1 h.1.symm]
      rfl

end Front

/-- A text is what is left of a front and of what stands behind it: all of the front or nothing,
and some of the characters behind it in their order. -/
def IsLeft (front behind text : List Char) : Prop :=
  ∃ kept, kept.Sublist behind ∧ (text = front ++ kept ∨ text = kept)

namespace IsLeft

variable {front behind text : List Char} (hleft : IsLeft front behind text) {c : Char}
include hleft

theorem stripBack (back : List Char) (hc : c ∉ front) :
    IsLeft front behind (stripBack (c :: back) text) := by
  obtain ⟨kept, hkept, rfl | rfl⟩ := hleft
  · refine ⟨_, (stripBack_isPrefix (c :: back) kept).sublist.trans hkept, Or.inl ?_⟩
    exact stripBack_append_of_not_mem hc kept
  · exact ⟨_, (stripBack_isPrefix (c :: back) _).sublist.trans hkept, Or.inr rfl⟩

theorem dropTailAfterSeparator (hcaret : '^' ∉ front) :
    IsLeft front behind (dropTailAfterSeparator text) := by
  obtain ⟨kept, hkept, rfl | rfl⟩ := hleft
  · refine ⟨_, (dropTailAfterSeparator_isPrefix kept).sublist.trans hkept, Or.inl ?_⟩
    exact dropTailAfterSeparator_append_of_not_mem hcaret kept
  · exact ⟨_, (dropTailAfterSeparator_isPrefix _).sublist.trans hkept, Or.inr rfl⟩

theorem stripFront (edge : List Char) (hc : c ∉ front) :
    IsLeft front behind (stripFront (edge ++ [c]) text) := by
  obtain ⟨kept, hkept, rfl | rfl⟩ := hleft
  · by_cases hedge : edge ++ [c] <+: front ++ kept
    · obtain ⟨rest, hrest⟩ := hedge
      rw [← hrest, stripFront_append]
      rcases List.append_eq_append_iff.1 hrest with ⟨others, hfront, -⟩ | ⟨lost, -, hkept'⟩
      · exact absurd (by simp [hfront]) hc
      · refine ⟨rest, List.Sublist.trans ?_ hkept, Or.inr rfl⟩
        rw [hkept']
        exact List.sublist_append_right lost rest
    · rw [stripFront_eq_self hedge]
      exact ⟨kept, hkept, Or.inl rfl⟩
  · exact ⟨_, (stripFront_isSuffix (edge ++ [c]) _).sublist.trans hkept, Or.inr rfl⟩

end IsLeft

theorem isLeft_normalizeChars {front : List Char} (hstar : '*' ∉ front) (hcaret : '^' ∉ front)
    (behind : List Char) : IsLeft front behind (normalizeChars (front ++ behind)) := by
  have hcollapse : IsLeft front behind (collapseStars (front ++ behind)) :=
    ⟨_, collapseStars_sublist behind, Or.inl (collapseStars_append_of_not_mem hstar behind)⟩
  have hends : IsLeft front behind (inner (front ++ behind)) :=
    (hcollapse.stripBack [] hstar).stripFront [] hstar
  have hanchors := (hends.stripBack ['|'] hstar).stripFront ['|'] hstar
  exact hanchors.dropTailAfterSeparator hcaret

/-- Normalizing passes over a front that no edge can begin in, if no edge begins behind it. -/
theorem normalizeChars_append {front behind : List Char} (hne : front ≠ []) (hstar : '*' ∉ front)
    (hcaret : '^' ∉ front) (hbar : '|' ∉ front) (hstarBehind : ¬ ['*'] <+: behind)
    (hstartBehind : ¬ ['|', '*'] <+: behind) :
    normalizeChars (front ++ behind) = front ++ normalizeChars behind := by
  have hfront : ∀ (c : Char) (edge rest : List Char), c ∉ front →
      stripFront (c :: edge) (front ++ rest) = front ++ rest := by
    intro c edge rest hc
    obtain ⟨first, others, rfl⟩ := List.exists_cons_of_ne_nil hne
    apply stripFront_eq_self
    intro hedge
    exact hc ((List.cons_prefix_cons.1 hedge).1 ▸ List.mem_cons_self)
  have hbehind : ∀ kept, kept <+: collapseStars behind →
      stripFront ['*'] kept = kept ∧ stripFront ['|', '*'] kept = kept := by
    intro kept hkept
    constructor
    · apply stripFront_eq_self
      exact fun h => hstarBehind
        ((prefix_append_collapseStars_iff [] List.not_mem_nil (Or.inr rfl)).1
          (h.trans hkept))
    · apply stripFront_eq_self
      exact fun h => hstartBehind
        ((prefix_append_collapseStars_iff ['|'] (by decide) (Or.inr rfl)).1
          (h.trans hkept))
  have hback := stripBack_isPrefix ['*'] (collapseStars behind)
  have htail := (stripBack_isPrefix ['*', '|'] _).trans hback
  rw [normalizeChars, collapseStars_append_of_not_mem hstar, stripBack_append_of_not_mem hstar,
    hfront _ _ _ hstar, stripBack_append_of_not_mem hstar, hfront _ _ _ hbar,
    dropTailAfterSeparator_append_of_not_mem hcaret, normalizeChars, (hbehind _ hback).1,
    (hbehind _ htail).2]

end Pattern

end UrlFilter
