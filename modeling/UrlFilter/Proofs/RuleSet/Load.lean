/-
Loading lists into rule sets.

A load compiles all of a list before it touches the set, so a load that fails leaves the
set as it was.  Under `skip` it never fails and does what adding the trimmed lines one by
one does, with counters that tell where each line went.  The warnings take their numbers from
the counter of the lines.
-/
import UrlFilter.Proofs.FilterList.Lines
import UrlFilter.Proofs.FilterList.Pass
import UrlFilter.RuleSet

namespace UrlFilter

/-- How the outcome of a line comes about. -/
inductive LineOutcome.Arises (line : String) : LineOutcome → Prop
  | blank : Line.ofText line = .blank → Arises line blank
  | comment : Line.ofText line = .comment → Arises line comment
  | elementHiding : Line.ofText line = .elementHiding → Arises line elementHiding
  | rule {filter : Filter} {compiled : Rule} : Line.ofText line = .filter filter →
      filter.compile = .ok compiled → Arises line (rule compiled)
  | failed {filter : Filter} {error : CompileError} : Line.ofText line = .filter filter →
      filter.compile = .error error → Arises line (failed error)

theorem LineOutcome.arises_ofText (line : String) : Arises line (ofText line) := by
  rw [ofText]
  cases hline : Line.ofText line with
  | blank => exact .blank hline
  | comment => exact .comment hline
  | elementHiding => exact .elementHiding hline
  | filter filter =>
      dsimp only
      cases hcompile : filter.compile with
      | ok compiled => exact .rule hline hcompile
      | error error => exact .failed hline hcompile

namespace RuleSet

/-- Add lines one after the other, each whatever became of those before it. -/
def addLines (set : RuleSet) : List String → RuleSet × List (Except CompileError Unit)
  | [] => (set, [])
  | line :: lines =>
      let (next, answer) := set.addLine line
      let (last, answers) := next.addLines lines
      (last, answer :: answers)

/-- The error of an answer that is one. -/
def failure? : Except CompileError Unit → Option CompileError
  | .ok _ => none
  | .error error => some error

/-- The failures among the answers to lines as they are told of, the first line with the
number `number`. -/
def rejections : Nat → List (Except CompileError Unit) → List Event
  | _, [] => []
  | number, answer :: answers =>
      ((failure? answer).map (Event.lineRejected number)).toList ++
        rejections (number + 1) answers

variable (set : RuleSet)

theorem append_nil : set.append [] = set := by
  rw [append, List.append_nil]

theorem addLines_cons (line : String) (lines : List String) :
    set.addLines (line :: lines) =
      (((set.addLine line).1.addLines lines).1,
        (set.addLine line).2 :: ((set.addLine line).1.addLines lines).2) := rfl

theorem addLines_concat (lines : List String) (line : String) :
    set.addLines (lines ++ [line]) =
      (((set.addLines lines).1.addLine line).1,
        (set.addLines lines).2 ++ [((set.addLines lines).1.addLine line).2]) := by
  induction lines generalizing set with
  | nil => rfl
  | cons first lines ih =>
      rw [List.cons_append, addLines_cons, ih, addLines_cons]
      rfl

/-- Adding a line keeps of it what a list keeps of it. -/
theorem addLine_eq (line : String) :
    set.addLine line =
      (set.append (LineOutcome.ofText line).rule?.toList,
        match (LineOutcome.ofText line).error? with
        | some error => .error error
        | none => .ok ()) := by
  rw [addLine, compileLine]
  have harises := LineOutcome.arises_ofText line
  generalize LineOutcome.ofText line = outcome at harises
  cases harises with
  | blank hline =>
      rw [hline]
      rfl
  | comment hline =>
      rw [hline]
      rfl
  | elementHiding hline =>
      rw [hline]
      rfl
  | rule hline hcompile =>
      rw [hline]
      dsimp only
      rw [hcompile]
      rfl
  | failed hline hcompile =>
      rw [hline]
      dsimp only
      rw [hcompile]
      exact congrArg (·, _) set.append_nil.symm

theorem length_addLines (lines : List String) : (set.addLines lines).2.length = lines.length := by
  induction lines generalizing set with
  | nil => rfl
  | cons line lines ih => rw [addLines_cons, List.length_cons, ih, List.length_cons]

/-- The number of one answer more is by one greater than the number of answers before it. -/
theorem rejections_concat (number : Nat) (answers : List (Except CompileError Unit))
    (answer : Except CompileError Unit) :
    rejections number (answers ++ [answer]) = rejections number answers ++
      ((failure? answer).map (.lineRejected (number + answers.length))).toList := by
  induction answers generalizing number with
  | nil => exact List.append_nil _
  | cons first answers ih =>
      rw [List.cons_append, rejections, ih, rejections, List.append_assoc, List.length_cons,
        Nat.add_right_comm, Nat.add_assoc]

theorem failure?_addLine (line : String) :
    failure? (set.addLine line).2 = (LineOutcome.ofText line).error? := by
  rw [addLine_eq]
  cases (LineOutcome.ofText line).error? <;> rfl

end RuleSet

/-- Counts that tell where each of some lines went. -/
structure ListStats.Tally (stats : ListStats) (lines : List String) : Prop where
  lines_eq : stats.lines = lines.length
  blank_eq : stats.blank = lines.countP fun line => Line.ofText line = .blank
  comments_eq : stats.comments = lines.countP fun line => Line.ofText line = .comment
  elementHiding_eq : stats.elementHiding =
    lines.countP fun line => Line.ofText line = .elementHiding
  partition : stats.lines = stats.blank + stats.comments + stats.elementHiding +
    stats.rules + stats.errors.length

namespace FilterList

/-- A pass has come as far as adding the same lines to a set. -/
structure Progress.IsAfter (set : RuleSet) (read : List String) (progress : Progress) :
    Prop where
  set_eq : (set.addLines read).1 = set.append progress.rules
  errors_eq : progress.errors = (set.addLines read).2.filterMap RuleSet.failure?
  warnings_eq : progress.events.filter (fun event => event.level = .warn) =
    RuleSet.rejections 1 (set.addLines read).2
  tally : progress.stats.Tally read

theorem Progress.isAfter_start (set : RuleSet) : start.IsAfter set [] where
  set_eq := set.append_nil.symm
  errors_eq := rfl
  warnings_eq := rfl
  tally := ⟨rfl, rfl, rfl, rfl, rfl⟩

theorem level_ne_warn_of_mem_lineEvents {line : String} {event : Event}
    (h : event ∈ Line.events line) : event.level ≠ .warn := by
  rw [Line.events] at h
  split at h
  · contradiction
  · contradiction
  · rw [List.mem_singleton.1 h]
    exact Level.noConfusion
  · obtain ⟨option, -, rfl⟩ := List.mem_map.1 h
    exact Level.noConfusion

theorem filter_warn_lineEvents (line : String) :
    (Line.events line).filter (fun event => event.level = .warn) = [] := by
  rw [List.filter_eq_nil_iff]
  intro event hevent
  simpa using level_ne_warn_of_mem_lineEvents hevent

/-- A line is counted where it belongs. -/
theorem Progress.tally_step {read : List String} {progress next : Progress} {line : String}
    (h : progress.stats.Tally read) (hstep : progress.step .skip line = .ok next) :
    next.stats.Tally (read ++ [line]) := by
  obtain ⟨hlines, hblank, hcomments, hhiding, hpartition⟩ := h
  rw [Progress.step] at hstep
  have harises := LineOutcome.arises_ofText line
  generalize LineOutcome.ofText line = outcome at harises hstep
  simp only [stats] at hlines hblank hcomments hhiding hpartition
  -- Each outcome raises the counter of its own kind and no other.
  cases harises
  all_goals
    cases hstep
    constructor <;> simp [stats, List.countP_append, *]
    omega

/-- A line keeps a pass and adding lines abreast. -/
theorem Progress.IsAfter.step {set : RuleSet} {read : List String} {progress next : Progress}
    (h : progress.IsAfter set read) {line : String}
    (hstep : progress.step .skip line = .ok next) : next.IsAfter set (read ++ [line]) := by
  obtain ⟨other, hother, hrules, herrors, hevents⟩ := progress.exists_step_skip line
  obtain rfl : other = next := Except.ok.inj (hother.symm.trans hstep)
  have hadded := set.addLines_concat read line
  have hfailure := (set.addLines read).1.failure?_addLine line
  have hnumber : progress.lines + 1 = 1 + (set.addLines read).2.length := by
    rw [set.length_addLines, Nat.add_comm]
    exact congrArg (1 + ·) h.tally.lines_eq
  refine ⟨?_, ?_, ?_, tally_step h.tally hstep⟩
  · rw [hadded, RuleSet.addLine_eq, h.set_eq, hrules]
    exact RuleSet.append_append _ _ _
  · rw [hadded, List.filterMap_append, ← h.errors_eq, herrors, ← hfailure,
      List.filterMap_cons, List.filterMap_nil]
    cases RuleSet.failure? ((set.addLines read).1.addLine line).2 <;> rfl
  · rw [hadded, RuleSet.rejections_concat, hfailure, hevents, List.filter_append,
      List.filter_append, filter_warn_lineEvents, List.append_nil, h.warnings_eq, hnumber]
    cases (LineOutcome.ofText line).error? <;> rfl

theorem isAfter_of_pass {set : RuleSet} {read lines : List String} {progress last : Progress}
    (h : progress.IsAfter set read) (hpass : pass .skip progress lines = .ok last) :
    last.IsAfter set (read ++ lines) := by
  induction lines generalizing read progress with
  | nil =>
      cases hpass
      rwa [List.append_nil]
  | cons line lines ih =>
      obtain ⟨next, hstep, -⟩ := progress.exists_step_skip line
      rw [pass_cons, hstep] at hpass
      have hlast := ih (h.step hstep) hpass
      rwa [List.append_assoc, List.singleton_append] at hlast

end FilterList

namespace RuleSet

variable (set : RuleSet)

/-- A load is a pass over the lines, whose rules are added when it has come to the end. -/
theorem load_eq_pass (policy : Policy) (text : String) :
    set.load policy text =
      match (FilterList.pass policy .start (FilterList.lines text)).mapError Prod.snd with
      | .ok last => (set.append last.rules, .ok last.stats)
      | .error error => (set, .error error) := by
  rw [load, FilterList.compile_eq_pass]
  cases FilterList.pass policy .start (FilterList.lines text) <;> rfl

/-- Under `skip` a load adds the rules that the lines of the list have. -/
theorem load_skip (text : String) :
    set.load .skip text = (set.append (FilterList.rules text),
      .ok (ListStats.ofOutcomes (FilterList.outcomes text))) := by
  rw [load, FilterList.compile_skip]

/-- Under `abort` it fails at the first error, and does the same if there is none. -/
theorem load_abort (text : String) :
    set.load .abort text =
      match (FilterList.errors text).head? with
      | some error => (set, .error error)
      | none => set.load .skip text := by
  rw [load_skip, load, FilterList.compile_abort]
  cases (FilterList.errors text).head? <;> rfl

/-- A load under `skip` always has counts.  A load under `abort` fails exactly if these
have an error, and then with the first one and without a change of the set; otherwise the
two loads are the same. -/
theorem load_abort_all_or_nothing (text : String) :
    ∃ stats, (set.load .skip text).2 = .ok stats ∧
      (∀ error, (set.load .abort text).2 = .error error ↔
        stats.errors.head? = some error) ∧
      (stats.errors ≠ [] → (set.load .abort text).1 = set) ∧
      (stats.errors = [] → set.load .abort text = set.load .skip text) := by
  obtain ⟨last, added, hskip, hadded, habort⟩ :=
    FilterList.exists_pass_skip .start (FilterList.lines text)
  have herrors : last.stats.errors = added := hadded
  rw [load_eq_pass, load_eq_pass, hskip, habort]
  refine ⟨last.stats, rfl, ?_⟩
  rw [herrors]
  cases added with
  | nil => simp [Except.mapError]
  | cons error added => simp [Except.mapError]

/-- Loading under `skip` is adding the trimmed lines of the text one after the other.  The errors
and the warnings are the failures of that, each warning with the number of its line among all
lines, and the counts tell where each line went. -/
theorem load_skip_eq_addLines (text : String) :
    ∃ lines stats, (∀ trimmed, TrimmedLines text trimmed ↔ trimmed = lines) ∧
      set.load .skip text = ((set.addLines lines).1, .ok stats) ∧
      stats.errors = (set.addLines lines).2.filterMap failure? ∧
      (FilterList.events .skip text).filter (fun event => event.level = .warn) =
        rejections 1 (set.addLines lines).2 ∧
      stats.Tally lines ∧
      (set.load .skip text).1.size = set.size + stats.rules := by
  obtain ⟨last, -, hskip, -, -⟩ :=
    FilterList.exists_pass_skip .start (FilterList.lines text)
  have hafter := FilterList.isAfter_of_pass (FilterList.Progress.isAfter_start set) hskip
  rw [List.nil_append] at hafter
  rw [load_eq_pass, FilterList.events, hskip]
  refine ⟨FilterList.lines text, last.stats, fun _ => trimmedLines_iff, ?_, hafter.errors_eq,
    hafter.warnings_eq, hafter.tally, ?_⟩
  · rw [hafter.set_eq]
    rfl
  · exact List.length_append

/-- A text with a line of every kind: a comment that ends at a carriage return and a line feed, an
empty and a blank line, a rule for hiding elements, two filters, and between these a line that
cannot be compiled, which is the sixth. -/
theorem load_skip_of_mixed_lines :
    let text := "! c\r\n\n x##y \n \t\nad$foo\nb d\n@@/x"
    let error : CompileError := ⟨"b d", "b d", .invalidByte 1 0x20⟩
    TrimmedLines text ["! c", "", "x##y", "", "ad$foo", "b d", "@@/x"] ∧
      ((empty .inert).load .skip text).1.rules.map Rule.text = ["ad$foo", "@@/x"] ∧
      ((empty .inert).load .skip text).2 =
        .ok { lines := 7, blank := 2, comments := 1, elementHiding := 1, rules := 2,
              errors := [error] } ∧
      (FilterList.events .skip text).filter (fun event => event.level = .warn) =
        [.lineRejected 6 error] := by
  intro text error
  let read := ["! c", "", "x##y", "", "ad$foo", "b d", "@@/x"]
  have htrimmed : TrimmedLines text read := trimmedLines_iff.2 (by decide +kernel)
  have hrules : ((empty .inert).addLines read).1.rules.map Rule.text = ["ad$foo", "@@/x"] := by
    decide +kernel
  obtain ⟨lines, stats, hlines, hload, -, hwarnings, -, -⟩ :=
    load_skip_eq_addLines (empty .inert) text
  obtain rfl : read = lines := (hlines read).1 htrimmed
  refine ⟨htrimmed, ?_, ?_, ?_⟩
  · rw [hload]
    exact hrules
  · decide +kernel
  · rw [hwarnings]
    decide +kernel

end RuleSet

end UrlFilter
