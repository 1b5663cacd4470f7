/-
Domain constraints under the two modes.

A rule with domain tokens needs one of the included ones in the domain of a query.  Enforced
exclusions only ever take acceptance away: they reject the queries with an excluded token in
their domain, and inert ones do not look at excluded tokens at all.
-/
import UrlFilter.Proofs.RuleSet.Answers
import UrlFilter.Proofs.Text.Substring
import Mathlib.Data.List.Basic

namespace UrlFilter

namespace DomainToken

/-- The bytes of a token stand somewhere in the bytes of a domain, without a gap. -/
def StandsIn (token : DomainToken) (domain : String) : Prop :=
  utf8 token.text <:+: utf8 domain

theorem occursIn_iff_standsIn {token : DomainToken} {domain : String} :
    token.occursIn domain = true ↔ token.StandsIn domain := by
  rw [occursIn_iff, StandsIn, utf8_infix_iff]

theorem any_occursIn_iff {tokens : List DomainToken} {domain : String} :
    (tokens.any fun token => token.occursIn domain) = true ↔
      ∃ token ∈ tokens, token.StandsIn domain := by
  simp only [List.any_eq_true, occursIn_iff_standsIn]

end DomainToken

namespace Rule

theorem includes_iff {rule : Rule} {domain : String} :
    rule.includes domain = true ↔ ∃ token ∈ rule.included, token.StandsIn domain :=
  DomainToken.any_occursIn_iff

theorem excludes_iff {rule : Rule} {domain : String} :
    rule.excludes domain = true ↔ ∃ token ∈ rule.excluded, token.StandsIn domain :=
  DomainToken.any_occursIn_iff

/-- A domain that is allowed where exclusions are enforced is allowed where they are not. -/
theorem allowsDomain_inert_of_enforced {rule : Rule} {domain : String}
    (h : rule.allowsDomain .enforced domain = true) :
    rule.allowsDomain .inert domain = true := by
  rw [allowsDomain] at h ⊢
  split at h
  · rename_i hdomain
    rw [if_pos hdomain]
    exact (Bool.and_eq_true_iff.1 h).2
  · rename_i hdomain
    rw [if_neg hdomain]

theorem accepts_inert_of_enforced {rule : Rule} {query : Query}
    (h : rule.accepts .enforced query = true) : rule.accepts .inert query = true := by
  rw [accepts, Bool.and_eq_true] at h ⊢
  exact ⟨h.1, allowsDomain_inert_of_enforced h.2⟩

theorem excludes_eq_false_iff {rule : Rule} {domain : String} :
    rule.excludes domain = false ↔ ∀ token ∈ rule.excluded, ¬ token.StandsIn domain := by
  rw [Bool.eq_false_iff, ne_eq, excludes_iff]
  simp only [not_exists, not_and]

/-- The domains that a rule with domain tokens allows. -/
theorem allowsDomain_iff_of_contains {rule : Rule} {mode : ExclusionMode} {domain : String}
    (hdomain : rule.flags.contains .domain = true) :
    rule.allowsDomain mode domain = true ↔
      (∃ token ∈ rule.included, token.StandsIn domain) ∧
        (mode = .enforced → ∀ token ∈ rule.excluded, ¬ token.StandsIn domain) := by
  rw [allowsDomain, if_pos hdomain, Bool.and_eq_true, includes_iff, and_comm,
    ← excludes_eq_false_iff]
  cases mode with
  | inert => simp
  | enforced => simp

section Assemble

variable (text pattern : String) (instructions : List Instruction) (flags : Flags)
variable (included excluded : List DomainToken)

/-- A rule is put together with a domain flag exactly if it has domain tokens, so the tokens
alone say which queries the rule accepts beyond what its program asks. -/
theorem accepts_assemble_iff (mode : ExclusionMode) (query : Query) :
    (assemble text pattern instructions flags included excluded).accepts mode query = true ↔
      (assemble text pattern instructions flags included excluded).program.accepts
          query.bytes = true ∧
        (included = [] ∧ excluded = [] ∨
          ∃ token ∈ included, token.StandsIn query.domain) ∧
        (mode = .enforced → ∀ token ∈ excluded, ¬ token.StandsIn query.domain) := by
  have hflag := contains_domain_assemble text pattern instructions flags included excluded
  rw [accepts, Bool.and_eq_true]
  refine and_congr_right fun _ => ?_
  -- The flag is what is asked first, and it is there unless both lists are empty.
  by_cases htokens : included = [] ∧ excluded = []
  · obtain ⟨rfl, rfl⟩ := htokens
    rw [allowsDomain, hflag]
    simp
  · have hdomain : (assemble text pattern instructions flags included excluded).flags.contains
        .domain = true := by
      rw [hflag]
      simp only [Bool.or_eq_true, Bool.not_eq_true', List.isEmpty_eq_false_iff]
      exact not_and_or.1 htokens
    rw [allowsDomain_iff_of_contains hdomain, or_iff_right htokens]
    rfl

theorem accepts_inert_assemble_iff (query : Query) :
    (assemble text pattern instructions flags included excluded).accepts .inert query = true ↔
      (assemble text pattern instructions flags included excluded).program.accepts
          query.bytes = true ∧
        (included = [] ∧ excluded = [] ∨
          ∃ token ∈ included, token.StandsIn query.domain) := by
  rw [accepts_assemble_iff]
  exact and_congr_right fun _ => and_iff_left fun hmode => ExclusionMode.noConfusion hmode

theorem accepts_enforced_assemble_iff (query : Query) :
    (assemble text pattern instructions flags included excluded).accepts .enforced query =
        true ↔
      (assemble text pattern instructions flags included excluded).accepts .inert query =
          true ∧
        ¬ ∃ token ∈ excluded, token.StandsIn query.domain := by
  rw [accepts_inert_assemble_iff, accepts_assemble_iff, and_assoc]
  refine and_congr_right fun _ => and_congr_right fun _ => ?_
  simp only [forall_const, not_exists, not_and]

/-- Which queries a rule accepts is up to its instructions and its domain tokens. -/
theorem accepts_assemble_eq (text' pattern' : String) (flags' : Flags) (mode : ExclusionMode)
    (query : Query) :
    (assemble text pattern instructions flags included excluded).accepts mode query =
      (assemble text' pattern' instructions flags' included excluded).accepts mode query := by
  rw [Bool.eq_iff_iff, accepts_assemble_iff, accepts_assemble_iff]
  rfl

/-- Only which tokens a rule has counts. -/
theorem accepts_assemble_congr {included included' excluded excluded' : List DomainToken}
    (hincluded : ∀ token, token ∈ included ↔ token ∈ included')
    (hexcluded : ∀ token, token ∈ excluded ↔ token ∈ excluded') (mode : ExclusionMode)
    (query : Query) :
    (assemble text pattern instructions flags included excluded).accepts mode query =
      (assemble text pattern instructions flags included' excluded').accepts mode query := by
  rw [Bool.eq_iff_iff, accepts_assemble_iff, accepts_assemble_iff]
  simp only [List.eq_nil_iff_forall_not_mem, hincluded, hexcluded]
  rfl

/-- Beside included tokens, excluded ones say nothing while exclusions are inert. -/
theorem accepts_inert_assemble_eq {included : List DomainToken} (hne : included ≠ [])
    (excluded excluded' : List DomainToken) (query : Query) :
    (assemble text pattern instructions flags included excluded).accepts .inert query =
      (assemble text pattern instructions flags included excluded').accepts .inert query := by
  rw [Bool.eq_iff_iff, accepts_inert_assemble_iff, accepts_inert_assemble_iff]
  simp only [hne, false_and]
  rfl

/-- A rule with excluded tokens only accepts nothing. -/
theorem not_accepts_assemble_nil {excluded : List DomainToken} (hne : excluded ≠ [])
    (mode : ExclusionMode) (query : Query) :
    (assemble text pattern instructions flags [] excluded).accepts mode query = false := by
  rw [Bool.eq_false_iff, ne_eq, accepts_assemble_iff]
  rintro ⟨-, ⟨-, hnil⟩ | ⟨token, htoken, -⟩, -⟩
  · exact hne hnil
  · exact List.not_mem_nil htoken

end Assemble

end Rule

namespace RuleSet

/-- Enforcing exclusions only takes answers away. -/
theorem answers_enforced_sublist (rules : List Rule) (query : Query) :
    ((RuleSet.mk rules .enforced).answers query).Sublist
      ((RuleSet.mk rules .inert).answers query) := by
  rw [answers_eq_map_filter, answers_eq_map_filter]
  apply List.Sublist.map
  exact List.monotone_filter_right rules fun rule haccepts =>
    Rule.accepts_inert_of_enforced haccepts

theorem answersAll_enforced_sublist (rules : List Rule) (queries : List Query) :
    ((RuleSet.mk rules .enforced).answersAll queries).Sublist
      ((RuleSet.mk rules .inert).answersAll queries) := by
  rw [answersAll_eq_flatMap, answersAll_eq_flatMap]
  induction queries with
  | nil => exact List.Sublist.refl []
  | cons query queries ih =>
      rw [List.flatMap_cons, List.flatMap_cons]
      exact (answers_enforced_sublist rules query).append ih

end RuleSet

/-- The law of domain constraints.  A rule accepts a query under inert exclusions if its
program does and it has no tokens or an included one stands in the domain, and under
enforced ones if moreover no excluded one stands there.  Which tokens there are counts, and
not in which order or how often.  Excluded tokens beside included ones say nothing while
exclusions are inert, and alone they keep the rule from accepting anything.  A set answers
no more, and in no other order, when exclusions are enforced. -/
theorem domain_constraint_law (text pattern : String) (instructions : List Instruction)
    (flags : Flags) (query : Query) :
    let rule := Rule.assemble text pattern instructions flags
    (∀ included excluded,
      ((rule included excluded).accepts .inert query = true ↔
        (rule included excluded).program.accepts query.bytes = true ∧
          (included = [] ∧ excluded = [] ∨
            ∃ token ∈ included, token.StandsIn query.domain)) ∧
      ((rule included excluded).accepts .enforced query = true ↔
        (rule included excluded).accepts .inert query = true ∧
          ¬ ∃ token ∈ excluded, token.StandsIn query.domain)) ∧
    (∀ included excluded included' excluded' mode,
      (∀ token, token ∈ included ↔ token ∈ included') →
      (∀ token, token ∈ excluded ↔ token ∈ excluded') →
      (rule included excluded).accepts mode query =
        (rule included' excluded').accepts mode query) ∧
    (∀ included excluded excluded', included ≠ [] →
      (rule included excluded).accepts .inert query =
        (rule included excluded').accepts .inert query) ∧
    (∀ excluded mode, excluded ≠ [] → (rule [] excluded).accepts mode query = false) ∧
    ∀ rules queries, ((RuleSet.mk rules .enforced).answersAll queries).Sublist
      ((RuleSet.mk rules .inert).answersAll queries) := by
  intro rule
  refine ⟨fun included excluded => ⟨?_, ?_⟩, ?_, ?_, ?_, ?_⟩
  · exact Rule.accepts_inert_assemble_iff text pattern instructions flags _ _ query
  · exact Rule.accepts_enforced_assemble_iff text pattern instructions flags _ _ query
  · intro included excluded included' excluded' mode hincluded hexcluded
    exact Rule.accepts_assemble_congr text pattern instructions flags hincluded hexcluded
      mode query
  · intro included excluded excluded' hne
    exact Rule.accepts_inert_assemble_eq text pattern instructions flags hne _ _ query
  · intro excluded mode hne
    exact Rule.not_accepts_assemble_nil text pattern instructions flags hne mode query
  · exact RuleSet.answersAll_enforced_sublist

/-- A filter for `ad` on a URI whose domain contains both an included and an excluded
token. -/
theorem domain_constraints_of_ad :
    let rule := Rule.assemble "ad" "ad" [⟨.char, 0x61⟩, ⟨.char, 0x64⟩, Instruction.accept]
      Flags.empty
    let query := Query.mk "http://x.b.com/ad"
    (rule [⟨"b.com"⟩] [⟨"x.b"⟩]).accepts .inert query = true ∧
      (rule [⟨"b.com"⟩] [⟨"x.b"⟩]).accepts .enforced query ≠ true ∧
      (rule [⟨"a"⟩, ⟨"b.com"⟩] [⟨"y"⟩]).accepts .enforced query =
        (rule [⟨"b.com"⟩, ⟨"a"⟩, ⟨"b.com"⟩] [⟨"y"⟩, ⟨"y"⟩]).accepts .enforced query ∧
      (rule [⟨"b.com"⟩] [⟨"x.b"⟩]).accepts .inert query =
        (rule [⟨"b.com"⟩] []).accepts .inert query ∧
      (rule [] [⟨"y"⟩]).accepts .inert query = false := by
  intro rule query
  obtain ⟨hlaw, hsets, hinert, hexcluded, -⟩ := domain_constraint_law "ad" "ad"
    [⟨.char, 0x61⟩, ⟨.char, 0x64⟩, Instruction.accept] Flags.empty query
  refine ⟨(hlaw _ _).1.2 ⟨by decide +kernel, Or.inr ⟨⟨"b.com"⟩, List.mem_cons_self, ?_⟩⟩,
    fun h => ((hlaw _ _).2.1 h).2 ⟨⟨"x.b"⟩, List.mem_cons_self, ?_⟩,
    hsets _ _ _ _ .enforced (fun token => ?_) (fun token => ?_),
    hinert _ _ _ (List.cons_ne_nil _ _), hexcluded _ .inert (List.cons_ne_nil _ _)⟩
  · change utf8 "b.com" <:+: utf8 query.domain
    decide +kernel
  · change utf8 "x.b" <:+: utf8 query.domain
    decide +kernel
  · simp only [List.mem_cons, List.not_mem_nil, or_false]
    tauto
  · simp only [List.mem_cons, List.not_mem_nil, or_false, or_self]

end UrlFilter
