/-
The answers of rule sets.

Answers are collected in one list, rule by rule and query by query.  What was collected
before stays in front, and what is put behind it depends on one rule and one query only.  So
the answers to a batch fall apart into those to its queries, and the answers of a set into
those of its rules.
-/
import UrlFilter.RuleSet

namespace UrlFilter

/-- No program accepts the empty URI. -/
theorem Program.not_accepts_empty (program : Program) :
    program.accepts "".toByteArray = false := by
  rw [Bool.eq_false_iff]
  intro haccepts
  obtain ⟨start, hstart, -⟩ := Program.accepts_iff.1 haccepts
  exact Nat.not_lt_zero start hstart

theorem Rule.not_accepts_of_uri_eq_empty (rule : Rule) (mode : ExclusionMode) {query : Query}
    (h : query.uri = "") : rule.accepts mode query = false := by
  rw [accepts, Query.bytes, h, Program.not_accepts_empty, Bool.false_and]

namespace RuleSet

/-- Rules put the texts of those that accept a query behind what is collected. -/
theorem foldl_collect (mode : ExclusionMode) (query : Query) (rules : List Rule)
    (collected : List String) :
    rules.foldl (collect mode query) collected =
      collected ++ (rules.filter fun rule => rule.accepts mode query).map Rule.text := by
  induction rules generalizing collected with
  | nil => exact (List.append_nil collected).symm
  | cons rule rules ih =>
      rw [List.foldl_cons, ih, collect, List.filter_cons]
      by_cases haccepts : rule.accepts mode query = true
      · rw [if_pos haccepts, if_pos haccepts, List.map_cons, List.append_assoc,
          List.singleton_append]
      · rw [if_neg haccepts, if_neg haccepts]

variable (set : RuleSet)

/-- The answers to a query are the texts of the rules that accept it. -/
theorem answers_eq_map_filter (query : Query) :
    set.answers query =
      (set.rules.filter fun rule => rule.accepts set.mode query).map Rule.text :=
  foldl_collect set.mode query set.rules []

theorem answersInto_eq_append (query : Query) (collected : List String) :
    set.answersInto query collected = collected ++ set.answers query := by
  rw [answersInto, foldl_collect, answers_eq_map_filter]

/-- Queries put their answers behind what is collected, one after the other. -/
theorem foldl_answersInto (queries : List Query) (collected : List String) :
    queries.foldl (fun collected query => set.answersInto query collected) collected =
      collected ++ queries.flatMap set.answers := by
  induction queries generalizing collected with
  | nil => exact (List.append_nil collected).symm
  | cons query queries ih =>
      rw [List.foldl_cons, ih, answersInto_eq_append, List.flatMap_cons, List.append_assoc]

theorem answersAll_eq_flatMap (queries : List Query) :
    set.answersAll queries = queries.flatMap set.answers :=
  set.foldl_answersInto queries []

theorem answersAll_append (left right : List Query) :
    set.answersAll (left ++ right) = set.answersAll left ++ set.answersAll right := by
  simp only [answersAll_eq_flatMap, List.flatMap_append]

/-- Parts of a batch can be answered apart from each other. -/
theorem answersAll_flatten (batches : List (List Query)) :
    set.answersAll batches.flatten = (batches.map set.answersAll).flatten := by
  induction batches with
  | nil => rfl
  | cons batch batches ih =>
      rw [List.flatten_cons, answersAll_append, ih, List.map_cons, List.flatten_cons]

/-- The rules of a set answer apart from each other. -/
theorem answers_append (left right : List Rule) (mode : ExclusionMode) (query : Query) :
    (RuleSet.mk (left ++ right) mode).answers query =
      (RuleSet.mk left mode).answers query ++ (RuleSet.mk right mode).answers query := by
  simp only [answers_eq_map_filter, List.filter_append, List.map_append]

theorem answers_of_uri_eq_empty {query : Query} (h : query.uri = "") : set.answers query = [] := by
  rw [answers_eq_map_filter, List.filter_eq_nil_iff.2, List.map_nil]
  intro rule _
  rw [Rule.not_accepts_of_uri_eq_empty rule _ h]
  exact Bool.false_ne_true

theorem answersAll_filter_uri (queries : List Query) :
    set.answersAll (queries.filter fun query => query.uri ≠ "") = set.answersAll queries := by
  simp only [answersAll_eq_flatMap]
  induction queries with
  | nil => rfl
  | cons query queries ih =>
      rw [List.filter_cons, List.flatMap_cons, ← ih]
      by_cases huri : query.uri = ""
      · rw [if_neg (by simpa using huri), answers_of_uri_eq_empty set huri, List.nil_append]
      · rw [if_pos (decide_eq_true huri), List.flatMap_cons]

/-- The answers to a batch are those to its queries, one after the other.  The answers to a
query are the texts of the rules that accept it, as often as such rules stand in the set
and in their order, and collecting them leaves in front what was collected.  Parts of a
batch, and parts of a set, answer apart from each other, and the empty URI has no answer. -/
theorem answersAll_decomposes (set : RuleSet) :
    (∀ left right, set.answersAll (left ++ right) =
        set.answersAll left ++ set.answersAll right) ∧
      (∀ queries, set.answersAll queries = (queries.map set.answers).flatten) ∧
      (∀ query, set.answers query =
        (set.rules.filter fun rule => rule.accepts set.mode query).map Rule.text) ∧
      (∀ query collected, set.answersInto query collected =
        collected ++ set.answers query) ∧
      (∀ left right query, (RuleSet.mk (left ++ right) set.mode).answers query =
        (RuleSet.mk left set.mode).answers query ++
          (RuleSet.mk right set.mode).answers query) ∧
      (∀ queries, set.answersAll (queries.filter fun query => query.uri ≠ "") =
        set.answersAll queries) ∧
      (∀ batches : List (List Query), set.answersAll batches.flatten =
        (batches.map set.answersAll).flatten) := by
  refine ⟨set.answersAll_append, fun queries => ?_, set.answers_eq_map_filter,
    set.answersInto_eq_append, fun left right => answers_append left right set.mode,
    set.answersAll_filter_uri, set.answersAll_flatten⟩
  rw [answersAll_eq_flatMap, List.flatMap_def]

end RuleSet

end UrlFilter
