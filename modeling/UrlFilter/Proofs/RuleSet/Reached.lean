/-
Rule sets that calls lead to.

Rules come into a set line by line or by whole lists, and a call that fails adds
none.  So every rule of a set that calls lead to is the rule of some line, and it
has the shape of such a rule.
-/
import UrlFilter.Proofs.FilterList.Pass
import UrlFilter.Proofs.Rule.Shape
import UrlFilter.RuleSet

namespace UrlFilter

/-- Is the rule what some line compiles to? -/
def Rule.IsCompiled (rule : Rule) : Prop :=
  ∃ line, (Filter.ofText line).compile = .ok rule

theorem Rule.IsCompiled.wellFormed {rule : Rule} (h : rule.IsCompiled) :
    rule.WellFormed := by
  obtain ⟨line, hcompile⟩ := h
  exact Filter.compile_wellFormed hcompile

theorem isCompiled_of_compileLine {line : String} {rule : Rule}
    (h : compileLine line = .ok (some rule)) : rule.IsCompiled :=
  ⟨line, Filter.compile_of_compileLine h⟩

theorem LineOutcome.isCompiled_of_rule? {line : String} {rule : Rule}
    (h : (LineOutcome.ofText line).rule? = some rule) : rule.IsCompiled := by
  rw [LineOutcome.ofText] at h
  split at h
  · contradiction
  · contradiction
  · contradiction
  · rename_i filter hline
    rw [Line.eq_ofText_of_filter hline] at h
    split at h
    · rename_i compiled hcompile
      exact ⟨line, Option.some.inj h ▸ hcompile⟩
    · cases h

theorem FilterList.isCompiled_of_mem {policy : Policy} {text : String}
    {rules : List Rule} {stats : ListStats}
    (h : FilterList.compile policy text = .ok (rules, stats)) :
    ∀ rule ∈ rules, rule.IsCompiled := by
  intro rule hrule
  obtain rfl : rules = FilterList.rules text :=
    congrArg Prod.fst (FilterList.eq_of_compile h)
  rw [FilterList.rules, List.mem_filterMap] at hrule
  obtain ⟨outcome, houtcome, hsome⟩ := hrule
  obtain ⟨line, -, rfl⟩ := List.mem_map.1 houtcome
  exact LineOutcome.isCompiled_of_rule? hsome

namespace RuleSet

/-- A call that adds rules to a set unless it fails. -/
inductive Call
  | addLine (text : String)
  | load (policy : Policy) (text : String)
  deriving DecidableEq, Repr

/-- The set behind a call. -/
def call (set : RuleSet) : Call → RuleSet
  | .addLine text => (set.addLine text).1
  | .load policy text => (set.load policy text).1

/-- The set behind calls, one after the other. -/
def callAll (set : RuleSet) (calls : List Call) : RuleSet :=
  calls.foldl call set

/-- A call keeps the rules of a set and adds what lines compile to. -/
theorem mem_call {set : RuleSet} {call : Call} {rule : Rule}
    (h : rule ∈ (set.call call).rules) : rule ∈ set.rules ∨ rule.IsCompiled := by
  cases call with
  | addLine text =>
      rw [RuleSet.call, addLine] at h
      split at h
      · rename_i added hcompile
        rcases List.mem_append.1 h with h | h
        · exact Or.inl h
        · rw [Option.mem_toList] at h
          exact Or.inr (isCompiled_of_compileLine (h ▸ hcompile))
      · exact Or.inl h
  | load policy text =>
      rw [RuleSet.call, load] at h
      split at h
      · rename_i rules stats hcompile
        rcases List.mem_append.1 h with h | h
        · exact Or.inl h
        · exact Or.inr (FilterList.isCompiled_of_mem hcompile rule h)
      · exact Or.inl h

theorem mem_callAll {set : RuleSet} {calls : List Call} {rule : Rule}
    (h : rule ∈ (set.callAll calls).rules) : rule ∈ set.rules ∨ rule.IsCompiled := by
  induction calls generalizing set with
  | nil => exact Or.inl h
  | cons call calls ih =>
      rcases ih h with hrule | hrule
      · exact mem_call hrule
      · exact Or.inr hrule

/-- All rules of a set that calls lead to are well formed, whether the calls fail
or not. -/
theorem wellFormed_of_mem_callAll (mode : ExclusionMode) (calls : List Call) :
    ∀ rule ∈ ((empty mode).callAll calls).rules, rule.WellFormed := by
  intro rule hrule
  rcases mem_callAll hrule with hempty | hcompiled
  · contradiction
  · exact hcompiled.wellFormed

/-- A line with all parts, and a list with a line that does not compile. -/
theorem wellFormed_of_two_calls :
    ∃ rule ∈ ((empty .inert).callAll [.addLine "||Ad*^b|$domain=a.b",
      .load .skip "<\nc$match-case"]).rules, rule.WellFormed := by
  have hne : ((empty .inert).callAll [.addLine "||Ad*^b|$domain=a.b",
      .load .skip "<\nc$match-case"]).rules ≠ [] := by decide +kernel
  obtain ⟨rule, hrule⟩ := List.exists_mem_of_ne_nil _ hne
  exact ⟨rule, hrule, wellFormed_of_mem_callAll _ _ rule hrule⟩

end RuleSet

end UrlFilter
