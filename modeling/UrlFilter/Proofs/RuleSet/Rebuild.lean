/-
Rebuilding rule sets.

A rule that a list gave is what its own text compiles to, and its text is a trimmed line.  So
the texts of the rules of a set, one to a line, are a list again, and loading it gives the
rules that the set has.
-/
import UrlFilter.Proofs.FilterList.Joined
import UrlFilter.Proofs.Rule.Shape
import UrlFilter.Proofs.RuleSet.Load

namespace UrlFilter

/-- Is the rule what its own text compiles to as a line of a list? -/
structure Rule.IsListed (rule : Rule) : Prop where
  outcome_eq : LineOutcome.ofText rule.text = .rule rule
  isLine : FilterList.IsLine rule.text

theorem Rule.IsListed.text_ne_empty {rule : Rule} (h : rule.IsListed) : rule.text ≠ "" := by
  intro hempty
  have houtcome := h.outcome_eq
  rw [hempty] at houtcome
  cases houtcome

/-- The text of the rule of a line is the line. -/
theorem LineOutcome.text_eq_of_rule {line : String} {rule : Rule}
    (h : ofText line = .rule rule) : rule.text = line := by
  have harises := arises_ofText line
  rw [h] at harises
  cases harises with
  | rule hline hcompile =>
      obtain ⟨instructions, -, rfl⟩ := Filter.exists_instructions_of_compile hcompile
      rw [Line.eq_ofText_of_filter hline]
      rfl

theorem filterMap_rule?_map_rule (rules : List Rule) :
    (rules.map LineOutcome.rule).filterMap LineOutcome.rule? = rules := by
  rw [List.filterMap_map]
  exact List.filterMap_some

theorem filterMap_error?_map_rule (rules : List Rule) :
    (rules.map LineOutcome.rule).filterMap LineOutcome.error? = [] := by
  rw [List.filterMap_map, List.filterMap_eq_nil_iff]
  exact fun rule _ => rfl

/-- The counts of a list in which every line is a rule. -/
theorem ListStats.ofOutcomes_map_rule (rules : List Rule) :
    ofOutcomes (rules.map LineOutcome.rule) =
      { lines := rules.length, blank := 0, comments := 0, elementHiding := 0,
        rules := rules.length, errors := [] } := by
  have hcount : ∀ outcome : LineOutcome, (∀ rule, LineOutcome.rule rule ≠ outcome) →
      (rules.map LineOutcome.rule).count outcome = 0 := by
    intro outcome hother
    rw [List.count_eq_zero, List.mem_map]
    rintro ⟨rule, -, hrule⟩
    exact hother rule hrule
  rw [ofOutcomes, List.length_map, filterMap_rule?_map_rule, filterMap_error?_map_rule,
    hcount .blank (fun _ => LineOutcome.noConfusion),
    hcount .comment (fun _ => LineOutcome.noConfusion),
    hcount .elementHiding (fun _ => LineOutcome.noConfusion)]

namespace FilterList

theorem isListed_of_mem_rules {text : String} {rule : Rule} (h : rule ∈ rules text) :
    rule.IsListed := by
  obtain ⟨outcome, houtcome, hrule⟩ := List.mem_filterMap.1 h
  obtain ⟨line, hline, rfl⟩ := List.mem_map.1 houtcome
  have hcompiled : LineOutcome.ofText line = .rule rule := by
    cases hof : LineOutcome.ofText line with
    | rule compiled =>
        rw [hof] at hrule
        rw [Option.some.inj hrule]
    | _ =>
        rw [hof] at hrule
        cases hrule
  have htext := LineOutcome.text_eq_of_rule hcompiled
  constructor
  · rw [htext, hcompiled]
  · rw [htext]
    exact isLine_of_mem_lines hline

/-- The texts of listed rules, one to a line, have these rules as their outcomes. -/
theorem outcomes_joined_texts {rules : List Rule} (hlisted : ∀ rule ∈ rules, rule.IsListed) :
    outcomes ("\n".intercalate (rules.map Rule.text)) = rules.map LineOutcome.rule := by
  have hlines : lines ("\n".intercalate (rules.map Rule.text)) = rules.map Rule.text := by
    apply lines_intercalate
    · intro text htext
      obtain ⟨rule, hrule, rfl⟩ := List.mem_map.1 htext
      exact (hlisted rule hrule).isLine
    · intro text htext
      obtain ⟨rule, hrule, rfl⟩ := List.mem_map.1 htext
      exact (hlisted rule hrule).text_ne_empty
  rw [outcomes, hlines, List.map_map]
  exact List.map_congr_left fun rule hrule => (hlisted rule hrule).outcome_eq

end FilterList

namespace RuleSet

/-- The set behind loads, one after the other, whatever becomes of each of them. -/
def loadAll (set : RuleSet) (loads : List (Policy × String)) : RuleSet :=
  loads.foldl (fun set load => (set.load load.1 load.2).1) set

theorem mem_load {set : RuleSet} {policy : Policy} {text : String} {rule : Rule}
    (h : rule ∈ (set.load policy text).1.rules) : rule ∈ set.rules ∨ rule.IsListed := by
  have hadded : (set.load policy text).1 = set ∨
      (set.load policy text).1 = set.append (FilterList.rules text) := by
    cases policy with
    | skip =>
        rw [load_skip]
        exact Or.inr rfl
    | abort =>
        rw [load_abort, load_skip]
        cases (FilterList.errors text).head? with
        | some error => exact Or.inl rfl
        | none => exact Or.inr rfl
  rcases hadded with hadded | hadded
  · rw [hadded] at h
    exact Or.inl h
  · rw [hadded, rules_append] at h
    exact (List.mem_append.1 h).imp_right FilterList.isListed_of_mem_rules

theorem mem_loadAll {set : RuleSet} {loads : List (Policy × String)} {rule : Rule}
    (h : rule ∈ (set.loadAll loads).rules) : rule ∈ set.rules ∨ rule.IsListed := by
  induction loads generalizing set with
  | nil => exact Or.inl h
  | cons load loads ih =>
      rcases ih h with hrule | hlisted
      · exact mem_load hrule
      · exact Or.inr hlisted

/-- A set that loads lead to can be rebuilt from the texts of its rules.  Joined by line feeds
they are a list that loads under `abort`, in which every line is a rule, and which gives a
fresh set all the rules of the set, each with everything it has, in their order. -/
theorem load_joined_texts (mode fresh : ExclusionMode) (loads : List (Policy × String)) :
    let rules := ((empty mode).loadAll loads).rules
    (empty fresh).load .abort ("\n".intercalate (rules.map Rule.text)) =
      (⟨rules, fresh⟩, .ok
        { lines := rules.length, blank := 0, comments := 0, elementHiding := 0,
          rules := rules.length, errors := [] }) := by
  intro rules
  have hlisted : ∀ rule ∈ rules, rule.IsListed := by
    intro rule hrule
    rcases mem_loadAll hrule with hempty | hlisted
    · contradiction
    · exact hlisted
  have houtcomes := FilterList.outcomes_joined_texts hlisted
  have hrules : FilterList.rules ("\n".intercalate (rules.map Rule.text)) = rules := by
    rw [FilterList.rules, houtcomes, filterMap_rule?_map_rule]
  have herrors : FilterList.errors ("\n".intercalate (rules.map Rule.text)) = [] := by
    rw [FilterList.errors, houtcomes, filterMap_error?_map_rule]
  rw [load_abort, load_skip, herrors, hrules, houtcomes, ListStats.ofOutcomes_map_rule]
  rfl

end RuleSet

end UrlFilter
