/-
The edges of normal forms.

Behind the steps that take wildcards away at the two ends no wildcard stands there, since no
two stand side by side.  An anchor that is taken away with its wildcard can leave another one
like it in its place, and each step runs once.  So a normal form has none of the edges that
normalizing removes, and is normalized to itself, unless such an edge stood there twice.
-/
import UrlFilter.Proofs.Pattern.Mark

namespace UrlFilter

namespace Pattern

theorem collapseStars_sublist (text : List Char) : (collapseStars text).Sublist text := by
  induction text with
  | nil => exact List.Sublist.refl []
  | cons c text ih =>
      rw [collapseStars_cons]
      split
      · exact ih.cons c
      · exact ih.cons_cons c

/-- Normalizing takes characters away and neither adds nor moves any. -/
theorem normalizeChars_sublist (text : List Char) : (normalizeChars text).Sublist text :=
  (normalizeChars_isInfix text).sublist.trans (collapseStars_sublist text)

section Star

variable {text : List Char} (hrun : ¬ ['*', '*'] <:+: text)
include hrun

/-- A front that ends with a wildcard leaves none behind it. -/
theorem no_star_stripFront (front : List Char)
    (hfront : ['*'] <+: text → front ++ ['*'] <+: text) :
    ¬ ['*'] <+: stripFront (front ++ ['*']) text := by
  by_cases hprefix : front ++ ['*'] <+: text
  · obtain ⟨rest, rfl⟩ := hprefix
    rw [stripFront_append]
    rintro ⟨behind, rfl⟩
    exact hrun ⟨front, behind, by simp only [List.append_assoc, List.cons_append, List.nil_append]⟩
  · rw [stripFront_eq_self hprefix]
    exact fun hstar => hprefix (hfront hstar)

/-- A back that begins with a wildcard leaves none in front of it. -/
theorem no_star_stripBack {back : List Char} (hback : ['*'] <:+ text → '*' :: back <:+ text) :
    ¬ ['*'] <:+ stripBack ('*' :: back) text := by
  by_cases hsuffix : '*' :: back <:+ text
  · obtain ⟨rest, rfl⟩ := hsuffix
    rw [stripBack_append]
    rintro ⟨before, rfl⟩
    exact hrun ⟨before, back, by simp only [List.append_assoc, List.cons_append, List.nil_append]⟩
  · rw [stripBack_eq_self hsuffix]
    exact fun hstar => hsuffix (hback hstar)

end Star

/-- The text between the wildcards at the two ends, with runs of wildcards collapsed. -/
def inner (text : List Char) : List Char :=
  stripFront ['*'] (stripBack ['*'] (collapseStars text))

theorem normalizeChars_eq_of_inner (text : List Char) :
    normalizeChars text =
      dropTailAfterSeparator (stripFront ['|', '*'] (stripBack ['*', '|'] (inner text))) := rfl

section Inner

variable (text : List Char)

theorem inner_isInfix : inner text <:+: collapseStars text :=
  (stripFront_isSuffix _ _).isInfix.trans (stripBack_isPrefix _ _).isInfix

theorem no_run_inner : ¬ ['*', '*'] <:+: inner text :=
  fun hrun => no_run_collapseStars text (hrun.trans (inner_isInfix text))

theorem no_star_front_inner : ¬ ['*'] <+: inner text := by
  have hrun : ¬ ['*', '*'] <:+: stripBack ['*'] (collapseStars text) :=
    fun h => no_run_collapseStars text (h.trans (stripBack_isPrefix _ _).isInfix)
  exact no_star_stripFront hrun [] id

theorem no_star_back_inner : ¬ ['*'] <:+ inner text := by
  have hback : ¬ ['*'] <:+ stripBack ['*'] (collapseStars text) :=
    no_star_stripBack (no_run_collapseStars text) id
  exact fun h => hback (h.trans (stripFront_isSuffix _ _))

end Inner

/-- The last step leaves a text alone if the text that it makes ends otherwise than with a
separator. -/
theorem dropTailAfterSeparator_eq_self_of_suffix {c : Char} {text : List Char}
    (back : List Char) (hc : c ≠ '^') (h : back ++ [c] <:+ dropTailAfterSeparator text) :
    dropTailAfterSeparator text = text := by
  apply dropTailAfterSeparator_eq_self
  rintro ⟨rest, rfl⟩
  obtain ⟨others, hothers⟩ := h
  rw [dropTailAfterSeparator_append, ← List.append_assoc] at hothers
  have hlast := (List.append_inj' hothers rfl).2
  exact hc (List.head_eq_of_cons_eq hlast)

/-- No wildcard stands at the two ends of a normal form. -/
theorem no_star_normalizeChars (text : List Char) :
    ¬ ['*'] <+: normalizeChars text ∧ ¬ ['*'] <:+ normalizeChars text := by
  rw [normalizeChars_eq_of_inner]
  have hrun : ¬ ['*', '*'] <:+: stripBack ['*', '|'] (inner text) :=
    fun h => no_run_inner text (h.trans (stripBack_isPrefix _ _).isInfix)
  have hfront : ¬ ['*'] <+: stripBack ['*', '|'] (inner text) :=
    fun h => no_star_front_inner text (h.trans (stripBack_isPrefix _ _))
  have hback : ¬ ['*'] <:+ stripBack ['*', '|'] (inner text) :=
    no_star_stripBack (no_run_inner text) fun h => absurd h (no_star_back_inner text)
  constructor
  · intro hstar
    have hkept := hstar.trans (dropTailAfterSeparator_isPrefix _)
    exact no_star_stripFront hrun ['|'] (fun h => absurd h hfront) hkept
  · intro hstar
    rw [dropTailAfterSeparator_eq_self_of_suffix [] (by decide) hstar] at hstar
    exact hback (hstar.trans (stripFront_isSuffix _ _))

/-- A text without any of these edges stands between its wildcards as a whole. -/
theorem inner_eq_self {text : List Char} (hrun : ¬ ['*', '*'] <:+: text)
    (hfront : ¬ ['*'] <+: text) (hback : ¬ ['*'] <:+ text) : inner text = text := by
  rw [inner, collapseStars_eq_self hrun, stripBack_eq_self hback, stripFront_eq_self hfront]

/-- A normal form can only have the two edges of which each step removes one. -/
theorem isNormal_normalizeChars {text : List Char}
    (hstart : ¬ ['|', '*'] <+: normalizeChars text)
    (htail : ¬ ['*', '|'] <:+ normalizeChars text) : IsNormal (normalizeChars text) where
  no_run := no_run_normalizeChars text
  no_star_back := (no_star_normalizeChars text).2
  no_star_front := (no_star_normalizeChars text).1
  no_star_before_tail := htail
  no_star_behind_start := hstart
  no_separator_before_tail := not_suffix_normalizeChars text

/-- The texts that normalizing leaves alone are those without any of the edges that it
removes. -/
theorem normalizeChars_eq_self_iff {text : List Char} :
    normalizeChars text = text ↔ IsNormal text := by
  refine ⟨fun hself => ?_, IsNormal.normalizeChars_eq_self⟩
  have hinner : inner text = text := by
    rw [← hself]
    obtain ⟨hfront, hback⟩ := no_star_normalizeChars text
    exact inner_eq_self (no_run_normalizeChars text) hfront hback
  have hsteps := normalizeChars_eq_of_inner text
  rw [hself, hinner] at hsteps
  -- The steps that are left take nothing away, so they find neither of their edges.
  have hinside : text <:+: stripFront ['|', '*'] (stripBack ['*', '|'] text) := by
    have hkept := dropTailAfterSeparator_isPrefix
      (stripFront ['|', '*'] (stripBack ['*', '|'] text))
    rw [← hsteps] at hkept
    exact hkept.isInfix
  have htail : ¬ ['*', '|'] <:+ text := by
    rintro ⟨rest, rfl⟩
    rw [stripBack_append] at hinside
    have hle := (hinside.trans (stripFront_isSuffix _ _).isInfix).length_le
    simp only [List.length_append, List.length_cons, List.length_nil] at hle
    omega
  have hstart : ¬ ['|', '*'] <+: text := by
    rw [stripBack_eq_self htail] at hinside
    rintro ⟨rest, rfl⟩
    rw [stripFront_append] at hinside
    have hle := hinside.length_le
    simp only [List.length_append, List.length_cons, List.length_nil] at hle
    omega
  rw [← hself] at htail hstart ⊢
  exact isNormal_normalizeChars hstart htail

section Repeats

/-- Does an edge that is removed once stand twice at an end of a text?  Of two start anchors and
two end anchors that share their wildcards and bars, only one bar is left. -/
def RepeatsEdge (text : List Char) : Prop :=
  inner text ≠ ['|', '*', '|', '*', '|'] ∧
    (['|', '*', '|', '*'] <+: inner text ∨ ['*', '|', '*', '|'] <:+ inner text)

instance (text : List Char) : Decidable (RepeatsEdge text) :=
  inferInstanceAs (Decidable (_ ∧ _))

variable {text : List Char}

/-- A front is left at the front of a text only if it stood there twice. -/
theorem prefix_stripFront_self_iff {front text : List Char} :
    front <+: stripFront front text ↔ front ++ front <+: text := by
  constructor
  · intro hkept
    by_cases hfront : front <+: text
    · obtain ⟨rest, rfl⟩ := hfront
      rw [stripFront_append] at hkept
      exact (List.prefix_append_right_inj front).2 hkept
    · rw [stripFront_eq_self hfront] at hkept
      exact absurd hkept hfront
  · rintro ⟨rest, rfl⟩
    rw [List.append_assoc, stripFront_append]
    exact List.prefix_append front rest

/-- A back is left at the back of a text only if it stood there twice. -/
theorem suffix_stripBack_self_iff {back text : List Char} :
    back <:+ stripBack back text ↔ back ++ back <:+ text := by
  constructor
  · intro hkept
    by_cases hback : back <:+ text
    · obtain ⟨rest, rfl⟩ := hback
      rw [stripBack_append] at hkept
      obtain ⟨others, rfl⟩ := hkept
      exact ⟨others, (List.append_assoc others back back).symm⟩
    · rw [stripBack_eq_self hback] at hkept
      exact absurd hkept hback
  · rintro ⟨rest, rfl⟩
    rw [← List.append_assoc, stripBack_append]
    exact List.suffix_append rest back

/-- A front of a text stands in front of the back, or the two share characters. -/
theorem prefix_or_shared {front back rest : List Char} (h : front <+: rest ++ back) :
    front <+: rest ∨ ∃ shared, shared ≠ [] ∧ rest ++ shared = front ∧ shared <+: back := by
  obtain ⟨behind, hbehind⟩ := h
  rcases List.append_eq_append_iff.1 hbehind with ⟨others, hrest, -⟩ | ⟨shared, hfront, hback⟩
  · exact Or.inl ⟨others, hrest.symm⟩
  · by_cases hshared : shared = []
    · subst hshared
      rw [List.append_nil] at hfront
      exact Or.inl (hfront ▸ List.prefix_refl _)
    · exact Or.inr ⟨shared, hshared, hfront.symm, behind, hback.symm⟩

/-- All that start anchors can share with an end anchor is its wildcard. -/
theorem prefix_or_eq_of_start {rest : List Char} (front : List Char)
    (hfront : front ++ ['*'] <:+ ['|', '*', '|', '*'])
    (h : front ++ ['*'] <+: rest ++ ['*', '|']) : front ++ ['*'] <+: rest ∨ rest = front := by
  have hends : ∀ shared ∈ ['|', '*', '|', '*'].tails, shared ≠ [] → shared <+: ['*', '|'] →
      shared = ['*'] := by decide
  rcases prefix_or_shared h with hkept | ⟨shared, hne, hrest, hback⟩
  · exact Or.inl hkept
  · have hend : shared <:+ ['|', '*', '|', '*'] := by
      refine (List.suffix_append rest shared).trans ?_
      rwa [hrest]
    obtain rfl := hends shared ((List.mem_tails _ _).2 hend) hne hback
    exact Or.inr (List.append_inj' hrest rfl).1

/-- A normal form begins with a start anchor and a wildcard if two such edges stood there. -/
theorem start_prefix_normalizeChars_iff :
    ['|', '*'] <+: normalizeChars text ↔
      inner text ≠ ['|', '*', '|', '*', '|'] ∧ ['|', '*', '|', '*'] <+: inner text := by
  rw [normalizeChars_eq_of_inner, prefix_dropTailAfterSeparator_iff rfl (by decide),
    prefix_stripFront_self_iff]
  constructor
  · intro hkept
    refine ⟨?_, hkept.trans (stripBack_isPrefix _ _)⟩
    intro hinner
    rw [hinner] at hkept
    exact absurd hkept (by decide)
  · rintro ⟨hne, hstart⟩
    by_cases htail : ['*', '|'] <:+ inner text
    · obtain ⟨rest, hrest⟩ := htail
      rw [← hrest] at hstart hne ⊢
      rw [stripBack_append]
      refine (prefix_or_eq_of_start ['|', '*', '|'] (List.suffix_refl _) hstart).resolve_right ?_
      rintro rfl
      exact hne rfl
    · rwa [stripBack_eq_self htail]

/-- A normal form ends with a wildcard and an end anchor if two such edges stood there. -/
theorem tail_suffix_normalizeChars_iff :
    ['*', '|'] <:+ normalizeChars text ↔
      inner text ≠ ['|', '*', '|', '*', '|'] ∧ ['*', '|', '*', '|'] <:+ inner text := by
  rw [normalizeChars_eq_of_inner]
  constructor
  · intro htail
    rw [dropTailAfterSeparator_eq_self_of_suffix ['*'] (by decide) htail] at htail
    have hkept := htail.trans (stripFront_isSuffix _ _)
    refine ⟨?_, suffix_stripBack_self_iff.1 hkept⟩
    intro hinner
    rw [hinner] at htail
    exact absurd htail (by decide)
  · rintro ⟨hne, others, hothers⟩
    have hback : stripBack ['*', '|'] (inner text) = others ++ ['*', '|'] := by
      rw [← hothers, ← stripBack_append (others ++ ['*', '|']) ['*', '|'], List.append_assoc]
      rfl
    have hkept : ['*', '|'] <:+ stripFront ['|', '*'] (others ++ ['*', '|']) := by
      by_cases hstart : ['|', '*'] <+: others ++ ['*', '|']
      · rcases prefix_or_eq_of_start ['|'] (by decide) hstart with ⟨rest, rfl⟩ | rfl
        · have hcut : stripFront ['|', '*'] (['|'] ++ ['*'] ++ rest ++ ['*', '|']) =
              rest ++ ['*', '|'] := stripFront_append ['|', '*'] (rest ++ ['*', '|'])
          rw [hcut]
          exact List.suffix_append _ _
        · exact absurd hothers.symm hne
      · rw [stripFront_eq_self hstart]
        exact List.suffix_append _ _
    rw [hback, dropTailAfterSeparator_eq_self]
    · exact hkept
    · intro hseparator
      have hends := List.suffix_of_suffix_length_le hkept hseparator (Nat.le_refl 2)
      exact absurd (hends.eq_of_length rfl) (by decide)

/-- A normal form is normalized to itself unless one of the two edges stood twice at an end. -/
theorem normalizeChars_normalizeChars_iff :
    normalizeChars (normalizeChars text) = normalizeChars text ↔ ¬ RepeatsEdge text := by
  have hrepeats : RepeatsEdge text ↔
      ['|', '*'] <+: normalizeChars text ∨ ['*', '|'] <:+ normalizeChars text := by
    rw [start_prefix_normalizeChars_iff, tail_suffix_normalizeChars_iff, ← and_or_left]
    rfl
  rw [normalizeChars_eq_self_iff, hrepeats, not_or]
  constructor
  · exact fun h => ⟨h.no_star_behind_start, h.no_star_before_tail⟩
  · exact fun h => isNormal_normalizeChars h.1 h.2

example : RepeatsEdge ['*', '*', '|', '*', '|', '*', 'a'] := by decide

example : ¬ RepeatsEdge ['|', '*', '|', '*', '|'] := by decide

end Repeats

end Pattern

end UrlFilter
