/-
Loading as one pass.

The pass over a list ends under `abort` at a line that cannot be compiled, and records that
line under `skip`; on every other line the two policies do the same.  So what a list is loaded
to is read off what its lines are: the rules of those that have one, the errors of those that
cannot be compiled, and the counts of the others.
-/
import UrlFilter.FilterList

namespace UrlFilter

/-- The counts of some outcomes. -/
def ListStats.ofOutcomes (outcomes : List LineOutcome) : ListStats where
  lines := outcomes.length
  blank := outcomes.count .blank
  comments := outcomes.count .comment
  elementHiding := outcomes.count .elementHiding
  rules := (outcomes.filterMap LineOutcome.rule?).length
  errors := outcomes.filterMap LineOutcome.error?

namespace FilterList

/-- The outcomes of the lines of a list, in order. -/
def outcomes (text : String) : List LineOutcome :=
  (lines text).map LineOutcome.ofText

/-- The rules of the lines of a list. -/
def rules (text : String) : List Rule :=
  (outcomes text).filterMap LineOutcome.rule?

/-- The errors of the lines of a list. -/
def errors (text : String) : List CompileError :=
  (outcomes text).filterMap LineOutcome.error?

namespace Progress

/-- Where a pass is after lines with these outcomes, none of which ended it. -/
def ofOutcomes (outcomes : List LineOutcome) (events : List Event) : Progress where
  lines := outcomes.length
  blank := outcomes.count .blank
  comments := outcomes.count .comment
  elementHiding := outcomes.count .elementHiding
  rules := outcomes.filterMap LineOutcome.rule?
  errors := outcomes.filterMap LineOutcome.error?
  events := events

/-- A line under `skip` adds its outcome to those before it. -/
theorem exists_step_skip_ofOutcomes (outcomes : List LineOutcome) (told : List Event)
    (line : String) :
    ∃ events, step .skip (ofOutcomes outcomes told) line =
      .ok (ofOutcomes (outcomes ++ [LineOutcome.ofText line]) events) := by
  rw [step]
  cases LineOutcome.ofText line <;>
    simp [ofOutcomes, LineOutcome.rule?, LineOutcome.error?]

/-- Under `abort` a line that cannot be compiled is the answer, and any other line does
what it does under `skip`. -/
theorem step_abort (progress : Progress) (line : String) :
    step .abort progress line =
      match (LineOutcome.ofText line).error? with
      | some error => .error (progress.events ++ Line.events line, error)
      | none => step .skip progress line := by
  rw [step, step]
  cases LineOutcome.ofText line <;> rfl

/-- Under `skip` every line can be read.  What is kept of it is the rule or the error that it
has, and an error is told with the number of its line. -/
theorem exists_step_skip (progress : Progress) (line : String) :
    ∃ next, step .skip progress line = .ok next ∧
      next.rules = progress.rules ++ (LineOutcome.ofText line).rule?.toList ∧
      next.errors = progress.errors ++ (LineOutcome.ofText line).error?.toList ∧
      next.events = progress.events ++ Line.events line ++
        ((LineOutcome.ofText line).error?.map (.lineRejected (progress.lines + 1))).toList := by
  rw [step]
  cases LineOutcome.ofText line <;> simp [LineOutcome.rule?, LineOutcome.error?]

end Progress

theorem pass_cons (policy : Policy) (progress : Progress) (line : String)
    (lines : List String) :
    pass policy progress (line :: lines) =
      (progress.step policy line).bind fun next => pass policy next lines := by
  rw [pass, List.foldlM_cons]
  rfl

/-- The two policies side by side.  A pass under `skip` comes to the end of the lines, and
a pass under `abort` answers with the first error that the other one adds, or comes to
the same end if that adds none. -/
theorem exists_pass_skip (progress : Progress) (lines : List String) :
    ∃ (last : Progress) (added : List CompileError), pass .skip progress lines = .ok last ∧
      last.errors = progress.errors ++ added ∧
      (pass .abort progress lines).mapError Prod.snd =
        match added.head? with
        | some error => .error error
        | none => .ok last := by
  induction lines generalizing progress with
  | nil => exact ⟨progress, [], rfl, (List.append_nil _).symm, rfl⟩
  | cons line lines ih =>
      obtain ⟨next, hstep, -, herrors, -⟩ := progress.exists_step_skip line
      obtain ⟨last, added, hskip, hlast, habort⟩ := ih next
      have hpass : pass .skip progress (line :: lines) = .ok last := by
        rw [pass_cons, hstep]
        exact hskip
      refine ⟨last, (LineOutcome.ofText line).error?.toList ++ added, hpass, ?_, ?_⟩
      · rw [hlast, herrors, List.append_assoc]
      · rw [pass_cons, Progress.step_abort]
        cases herror : (LineOutcome.ofText line).error? with
        | some error => rfl
        | none =>
            rw [hstep]
            exact habort

theorem exists_pass_skip_ofOutcomes (before : List LineOutcome) (told : List Event)
    (lines : List String) :
    ∃ events, pass .skip (.ofOutcomes before told) lines =
      .ok (.ofOutcomes (before ++ lines.map LineOutcome.ofText) events) := by
  induction lines generalizing before told with
  | nil =>
      rw [List.map_nil, List.append_nil]
      exact ⟨told, rfl⟩
  | cons line lines ih =>
      obtain ⟨next, hstep⟩ := Progress.exists_step_skip_ofOutcomes before told line
      obtain ⟨events, hpass⟩ := ih (before ++ [LineOutcome.ofText line]) next
      refine ⟨events, ?_⟩
      rw [pass_cons, hstep, List.map_cons]
      rwa [List.append_assoc] at hpass

theorem compile_eq_pass (policy : Policy) (text : String) :
    compile policy text = ((pass policy .start (lines text)).mapError Prod.snd).map
      fun last => (last.rules, last.stats) := by
  rw [compile]
  cases pass policy .start (lines text) <;> rfl

/-- Under `skip` a list compiles to what its lines are. -/
theorem compile_skip (text : String) :
    compile .skip text = .ok (rules text, ListStats.ofOutcomes (outcomes text)) := by
  obtain ⟨events, hpass⟩ := exists_pass_skip_ofOutcomes [] [] (lines text)
  have hstart : pass .skip .start (lines text) = .ok (.ofOutcomes (outcomes text) events) := hpass
  rw [compile, hstart]
  rfl

/-- Under `abort` a list with errors answers with the first one, and a list without errors
answers as it does under `skip`. -/
theorem compile_abort (text : String) :
    compile .abort text =
      match (errors text).head? with
      | some error => .error error
      | none => .ok (rules text, ListStats.ofOutcomes (outcomes text)) := by
  obtain ⟨last, added, hskip, hadded, habort⟩ := exists_pass_skip .start (lines text)
  have hresult : (last.rules, last.stats) =
      (rules text, ListStats.ofOutcomes (outcomes text)) := by
    have hcompile := compile_skip text
    rw [compile, hskip] at hcompile
    exact Except.ok.inj hcompile
  have herrors : errors text = added :=
    (congrArg (fun result => ListStats.errors result.2) hresult).symm.trans hadded
  rw [compile_eq_pass, habort, herrors, ← hresult]
  cases added.head? <;> rfl

/-- What a list compiles to under either policy, unless that fails. -/
theorem eq_of_compile {policy : Policy} {text : String} {compiled : List Rule × ListStats}
    (h : compile policy text = .ok compiled) :
    compiled = (rules text, ListStats.ofOutcomes (outcomes text)) := by
  cases policy with
  | skip =>
      rw [compile_skip] at h
      exact (Except.ok.inj h).symm
  | abort =>
      rw [compile_abort] at h
      split at h
      · contradiction
      · exact (Except.ok.inj h).symm

end FilterList

end UrlFilter
