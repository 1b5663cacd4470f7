/-
The mark of an exception in normal forms.

Normalizing takes wildcards away at the front of a pattern text, and the start anchor with
them.  So a mark comes to the front of the normal form if it stood there before, or if only
such wildcards and such an anchor stood in front of it.
-/
import UrlFilter.Proofs.Pattern.NormalForm

namespace UrlFilter

namespace Pattern

/-- What normalizing takes away in front of a mark, once runs of wildcards are collapsed. -/
def hidingFronts : List (List Char) := [['*'], ['|', '*'], ['*', '|', '*']]

/-- Does a mark of an exception stand behind characters that normalizing takes away? -/
def HidesMark (text : List Char) : Prop :=
  ∃ front ∈ hidingFronts, front ++ ['@', '@'] <+: collapseStars text

instance (text : List Char) : Decidable (HidesMark text) :=
  inferInstanceAs (Decidable (∃ front ∈ hidingFronts, _))

/-- What comes to the front when a front that begins otherwise is taken away. -/
theorem cons_prefix_stripFront_iff {a b : Char} {front part text : List Char}
    (hne : b ≠ a) :
    b :: part <+: stripFront (a :: front) text ↔
      b :: part <+: text ∨ (a :: front) ++ b :: part <+: text := by
  by_cases hfront : a :: front <+: text
  · obtain ⟨rest, rfl⟩ := hfront
    rw [stripFront_append, List.prefix_append_right_inj, or_iff_right]
    exact fun h => hne (List.cons_prefix_cons.1 h).1
  · rw [stripFront_eq_self hfront, or_iff_left]
    exact fun h => hfront ((List.prefix_append _ _).trans h)

section Back

variable {c : Char} {part back text : List Char} (hlast : part.getLast? = some c)
include hlast

/-- A part whose last character is not in the back of a text stands in front of the back. -/
theorem prefix_of_prefix_append {rest : List Char} (hc : c ∉ back)
    (h : part <+: rest ++ back) : part <+: rest := by
  by_cases hle : part.length ≤ rest.length
  · exact List.prefix_of_prefix_length_le h (List.prefix_append rest back) hle
  · obtain ⟨behind, hbehind⟩ := h
    have hplace : (rest ++ back)[part.length - 1]? = some c := by
      rw [← hbehind, List.getElem?_append_left (by omega), ← List.getLast?_eq_getElem?]
      exact hlast
    rw [List.getElem?_append_right (by omega)] at hplace
    exact absurd (List.mem_of_getElem? hplace) hc

theorem prefix_stripBack_iff (hc : c ∉ back) :
    part <+: stripBack back text ↔ part <+: text := by
  constructor
  · exact fun h => h.trans (stripBack_isPrefix back text)
  · intro h
    by_cases hback : back <:+ text
    · obtain ⟨rest, rfl⟩ := hback
      rw [stripBack_append]
      exact prefix_of_prefix_append hlast hc h
    · rwa [stripBack_eq_self hback]

theorem prefix_dropTailAfterSeparator_iff (hc : c ∉ ['|']) :
    part <+: dropTailAfterSeparator text ↔ part <+: text := by
  constructor
  · exact fun h => h.trans (dropTailAfterSeparator_isPrefix text)
  · intro h
    by_cases htail : ['^', '|'] <:+ text
    · obtain ⟨rest, rfl⟩ := htail
      rw [dropTailAfterSeparator_append]
      exact prefix_of_prefix_append hlast hc (by rwa [List.append_assoc])
    · rwa [dropTailAfterSeparator_eq_self htail]

end Back

/-- Collapsing leaves the first character as it is. -/
theorem head?_collapseStars (text : List Char) : (collapseStars text).head? = text.head? := by
  cases text with
  | nil => rfl
  | cons c text =>
      rw [collapseStars_cons]
      split
      · rename_i hrun
        rw [hrun.1, hrun.2, List.head?_cons]
      · rfl

/-- Collapsing leaves alone what stands at the front up to the first wildcard, and that wildcard
too. -/
theorem prefix_append_collapseStars_iff {ends text : List Char} (part : List Char)
    (hstar : '*' ∉ part) (hends : ends = [] ∨ ends = ['*']) :
    part ++ ends <+: collapseStars text ↔ part ++ ends <+: text := by
  induction part generalizing text with
  | nil =>
      rcases hends with rfl | rfl
      · simp only [List.nil_append, List.nil_prefix]
      · simp only [List.nil_append, List.singleton_prefix_iff_head?_eq_some, head?_collapseStars]
  | cons c part ih =>
      rw [List.mem_cons, not_or] at hstar
      have hfirst : ∀ other : List Char, c :: part ++ ends <+: other → other.head? ≠ some '*' := by
        rintro _ ⟨rest, rfl⟩ hhead
        exact hstar.1 (Option.some.inj hhead).symm
      by_cases hhead : text.head? = some '*'
      · refine iff_of_false (fun h => hfirst _ h ?_) fun h => hfirst _ h hhead
        rw [head?_collapseStars, hhead]
      · cases text with
        | nil => rfl
        | cons d text =>
            have hd : d ≠ '*' := fun hd => hhead (congrArg some hd)
            rw [collapseStars_cons, if_neg fun h => hd h.1, List.cons_append,
              List.cons_prefix_cons, List.cons_prefix_cons, ih hstar.2]

/-- Collapsing leaves alone what stands at the front without a wildcard. -/
theorem prefix_collapseStars_iff {part text : List Char} (hstar : '*' ∉ part) :
    part <+: collapseStars text ↔ part <+: text := by
  have hfront := @prefix_append_collapseStars_iff [] text part hstar (Or.inl rfl)
  rwa [List.append_nil] at hfront

/-- A text that begins with a mark hides none. -/
theorem not_hidesMark_of_prefix {text : List Char} (hmark : ['@', '@'] <+: text) :
    ¬ HidesMark text := by
  rintro ⟨front, hfront, hhidden⟩
  obtain ⟨rest, hrest⟩ := (prefix_collapseStars_iff (by decide)).2 hmark
  obtain ⟨behind, hbehind⟩ := hhidden
  have hhead := congrArg List.head? (hrest.trans hbehind.symm)
  have hother : ∀ other ∈ hidingFronts, other ≠ [] ∧ other.head? ≠ some '@' := by decide
  obtain ⟨hne, hfirst⟩ := hother front hfront
  rw [List.append_assoc, List.head?_append_of_ne_nil _ hne] at hhead
  exact hfirst hhead.symm

/-- A text that begins with no edge to take away hides none. -/
theorem not_hidesMark_of_no_edge {text : List Char} (hstar : ¬ ['*'] <+: text)
    (hstart : ¬ ['|', '*'] <+: text) : ¬ HidesMark text := by
  rintro ⟨front, hfront, hhidden⟩
  have hbegins := (List.prefix_append front ['@', '@']).trans hhidden
  have hedge : ∀ front ∈ hidingFronts, ['*'] <+: front ∨ ['|', '*'] <+: front := by decide
  rcases hedge front hfront with hedge | hedge
  · have hkept := hedge.trans hbegins
    exact hstar ((prefix_append_collapseStars_iff [] List.not_mem_nil (Or.inr rfl)).1 hkept)
  · have hkept := hedge.trans hbegins
    exact hstart ((prefix_append_collapseStars_iff ['|'] (by decide) (Or.inr rfl)).1 hkept)

/-- The normal form of a text begins with a mark if the text does or hides one. -/
theorem mark_prefix_normalizeChars_iff {text : List Char} :
    ['@', '@'] <+: normalizeChars text ↔ ['@', '@'] <+: text ∨ HidesMark text := by
  -- The steps are undone from the last one on.  Those at the back change no front.
  calc
    ['@', '@'] <+: normalizeChars text ↔
        ['@', '@'] <+: stripFront ['|', '*'] (stripBack ['*', '|']
          (stripFront ['*'] (stripBack ['*'] (collapseStars text)))) :=
      prefix_dropTailAfterSeparator_iff rfl (by decide)
    _ ↔ ['@', '@'] <+: stripFront ['*'] (stripBack ['*'] (collapseStars text)) ∨
        ['|', '*', '@', '@'] <+:
          stripFront ['*'] (stripBack ['*'] (collapseStars text)) := by
      rw [cons_prefix_stripFront_iff (by decide)]
      exact or_congr (prefix_stripBack_iff rfl (by decide))
        (prefix_stripBack_iff rfl (by decide))
    _ ↔ (['@', '@'] <+: collapseStars text ∨ ['*', '@', '@'] <+: collapseStars text) ∨
        (['|', '*', '@', '@'] <+: collapseStars text ∨
          ['*', '|', '*', '@', '@'] <+: collapseStars text) := by
      rw [cons_prefix_stripFront_iff (by decide), cons_prefix_stripFront_iff (by decide)]
      exact or_congr
        (or_congr (prefix_stripBack_iff rfl (by decide))
          (prefix_stripBack_iff rfl (by decide)))
        (or_congr (prefix_stripBack_iff rfl (by decide))
          (prefix_stripBack_iff rfl (by decide)))
    _ ↔ ['@', '@'] <+: text ∨ HidesMark text := by
      rw [prefix_collapseStars_iff (by decide), or_assoc]
      simp [HidesMark, hidingFronts]

example : HidesMark ['*', '*', '|', '*', '@', '@', 'a'] := by decide

end Pattern

end UrlFilter
