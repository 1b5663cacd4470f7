/-
Growing rule sets.

Whatever is done to a set, rules are added at its end or it is left as it was, and a call
that fails leaves it as it was.  So a set only grows, and with it its answers, since a rule
answers whatever rules stand beside it.
-/
import UrlFilter.Proofs.RuleSet.Answers
import UrlFilter.Proofs.RuleSet.Load
import UrlFilter.Proofs.RuleSet.Reached

namespace UrlFilter

namespace RuleSet

/-- What can be done to a set: compiled rules are added, or a call is made. -/
inductive Operation
  | insert (rule : Rule)
  | append (rules : List Rule)
  | call (call : Call)
  deriving DecidableEq, Repr

/-- The set behind an operation. -/
def perform (set : RuleSet) : Operation → RuleSet
  | .insert rule => set.insert rule
  | .append rules => set.append rules
  | .call call => set.call call

/-- The set behind operations, one after the other. -/
def performAll (set : RuleSet) (operations : List Operation) : RuleSet :=
  operations.foldl perform set

/-- Does a call on a set answer with an error? -/
def Call.Fails (set : RuleSet) : Call → Prop
  | .addLine text => ∃ error, (set.addLine text).2 = .error error
  | .load policy text => ∃ error, (set.load policy text).2 = .error error

/-- The rules of a set stand unchanged in front of those of a later one, and its answers in
front of the later answers. -/
structure GrowsInto (earlier later : RuleSet) : Prop where
  rules_prefix : earlier.rules <+: later.rules
  mode_eq : later.mode = earlier.mode
  answers_prefix : ∀ query, earlier.answers query <+: later.answers query

theorem growsInto_append (set : RuleSet) (added : List Rule) :
    set.GrowsInto (set.append added) where
  rules_prefix := List.prefix_append set.rules added
  mode_eq := rfl
  answers_prefix := fun query => by
    rw [append, answers_append]
    exact List.prefix_append _ _

/-- A call that fails leaves the set as it was. -/
theorem Call.Fails.call_eq {set : RuleSet} {call : Call} (h : call.Fails set) :
    set.call call = set := by
  cases call with
  | addLine text =>
      obtain ⟨error, herror⟩ := h
      rw [RuleSet.addLine] at herror
      rw [RuleSet.call, RuleSet.addLine]
      cases hcompile : compileLine text with
      | ok rule? =>
          rw [hcompile] at herror
          contradiction
      | error error => rfl
  | load policy text =>
      obtain ⟨error, herror⟩ := h
      rw [RuleSet.load] at herror
      rw [RuleSet.call, RuleSet.load]
      cases hcompile : FilterList.compile policy text with
      | ok compiled =>
          rw [hcompile] at herror
          contradiction
      | error error => rfl

/-- A call adds rules at the end, perhaps none. -/
theorem exists_call_eq_append (set : RuleSet) (call : Call) :
    ∃ added, set.call call = set.append added := by
  cases call with
  | addLine text => exact ⟨_, congrArg Prod.fst (set.addLine_eq text)⟩
  | load policy text =>
      rw [RuleSet.call, load]
      split
      · exact ⟨_, rfl⟩
      · exact ⟨[], set.append_nil.symm⟩

/-- So does every operation. -/
theorem exists_perform_eq_append (set : RuleSet) (operation : Operation) :
    ∃ added, set.perform operation = set.append added := by
  cases operation with
  | insert rule => exact ⟨[rule], rfl⟩
  | append rules => exact ⟨rules, rfl⟩
  | call call => exact set.exists_call_eq_append call

/-- And so do operations one after the other. -/
theorem exists_performAll_eq_append (set : RuleSet) (operations : List Operation) :
    ∃ added, set.performAll operations = set.append added := by
  induction operations generalizing set with
  | nil => exact ⟨[], set.append_nil.symm⟩
  | cons operation operations ih =>
      obtain ⟨added, hadded⟩ := set.exists_perform_eq_append operation
      obtain ⟨behind, hbehind⟩ := ih (set.perform operation)
      refine ⟨added ++ behind, ?_⟩
      calc
        set.performAll (operation :: operations) =
            (set.perform operation).append behind := hbehind
        _ = set.append (added ++ behind) := by rw [hadded, append_append]

theorem performAll_append (set : RuleSet) (before after : List Operation) :
    set.performAll (before ++ after) = (set.performAll before).performAll after :=
  List.foldl_append

/-- A set only grows: between any two moments of any run of operations its rules are kept
with all they have, in their order and at the front, its mode is kept, and what it answered
to a query it goes on answering first.  A call that fails changes nothing at all. -/
theorem performAll_append_only (set : RuleSet) (before : List Operation) :
    (∀ after, (set.performAll before).GrowsInto (set.performAll (before ++ after))) ∧
      ∀ call, Call.Fails (set.performAll before) call →
        set.performAll (before ++ [.call call]) = set.performAll before := by
  constructor
  · intro after
    obtain ⟨added, hadded⟩ := (set.performAll before).exists_performAll_eq_append after
    rw [performAll_append, hadded]
    exact growsInto_append _ added
  · intro call hfails
    rw [performAll_append]
    exact hfails.call_eq

/-- A list whose last line fails, loaded under `abort` behind a rule that is there. -/
theorem performAll_failing_load :
    let added : List Operation := [.call (.addLine "a")]
    Call.Fails ((empty .enforced).performAll added) (.load .abort "b\n<") ∧
      (empty .enforced).performAll (added ++ [.call (.load .abort "b\n<")]) =
        (empty .enforced).performAll added ∧
      ((empty .enforced).performAll added).GrowsInto
        ((empty .enforced).performAll (added ++ [.call (.load .skip "b\n<")])) := by
  intro added
  obtain ⟨hgrows, hkeeps⟩ := performAll_append_only (empty .enforced) added
  have hfails : Call.Fails ((empty .enforced).performAll added) (.load .abort "b\n<") :=
    ⟨⟨"<", "<", .invalidByte 0 0x3c⟩, by decide +kernel⟩
  exact ⟨hfails, hkeeps _ hfails, hgrows _⟩

end RuleSet

end UrlFilter
