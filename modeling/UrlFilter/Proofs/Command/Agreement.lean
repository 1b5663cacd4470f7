/-
Agreement of the commands on lists.

Checking lists passes over their errors and prints them.  Dumping lists and matching with them
stop at an error, and that is the first one that checking prints.  So the three commands find
the same lists valid, and valid lists give all of them the same rules: those of the files, one
file after the other, which are also those of the joined texts.
-/
import UrlFilter.Command.Run
import UrlFilter.Proofs.Command.CheckLines
import UrlFilter.Proofs.Command.Loading
import UrlFilter.Proofs.Json

namespace UrlFilter

/-- A command fails at an error of a list, and has no output.  The error stands behind the log on
the error stream, however the log is kept. -/
structure CommandResult.FailsAt (result : CommandResult) (path : String)
    (error : CompileError) : Prop where
  output_eq : result.output = ""
  exitCode_eq : result.exitCode = 1
  errorStream_eq : ∀ log, result.errorStreamWith log =
    log result.events ++ ("Error: " ++ (path ++ ": " ++ error.message) ++ "\n")

theorem CommandResult.failsAt_failure (events : List Event) (path : String)
    (error : CompileError) : (failure events (.invalidList path error)).FailsAt path error where
  output_eq := rfl
  exitCode_eq := rfl
  errorStream_eq _ := rfl

/-- Do the lists of a match load, whatever becomes of its URIs? -/
def MatchOptions.GetsPastLoading (options : MatchOptions) (surroundings : Surroundings) :
    Prop :=
  ∃ loaded, (loadFiles surroundings options.policy (.empty options.mode) options.lists).2 =
    .ok loaded

namespace LoadedList

/-- The counts of a list add up to its lines. -/
theorem lines_eq_of_mem_ofTexts {paths texts : List String} {list : LoadedList}
    (h : list ∈ ofTexts paths texts) : list.stats.lines =
      list.stats.blank + list.stats.comments + list.stats.elementHiding + list.stats.rules +
        list.stats.errors.length := by
  obtain ⟨place, hplace, rfl⟩ := List.mem_iff_getElem.1 h
  have hlist : (ofTexts paths texts)[place] = .ofText _ _ := List.getElem_zipWith
  rw [hlist]
  exact (FilterList.tally_ofOutcomes _).partition

end LoadedList

theorem CheckReport.failed_eq_sum (report : CheckReport) :
    report.failed = (report.lists.map fun list => list.stats.errors.length).sum := by
  rw [failed, List.sum_eq_foldl, List.foldl_map]

/-- The errors that are counted are those that are listed. -/
theorem CheckReport.failed_eq_length (report : CheckReport) :
    report.failed = (LoadedList.errorsOf report.lists).length := by
  simp only [failed_eq_sum, LoadedList.errorsOf, List.length_flatMap, List.length_map]

/-- The report of a check of readable lists. -/
def CheckReport.ofTexts (paths texts : List String) : CheckReport where
  set := ⟨texts.flatMap FilterList.rules, .inert⟩
  lists := LoadedList.ofTexts paths texts

theorem exists_fault_of_mapError {result : Except ReadFault String}
    {tell : ReadFault → CommandError} {error : CommandError}
    (h : result.mapError tell = .error error) : ∃ fault, error = tell fault := by
  cases result with
  | error fault => exact ⟨fault, (Except.error.inj h).symm⟩
  | ok text => cases h

/-- Reading URIs fails only where their text cannot be read. -/
theorem error_of_readUris {surroundings : Surroundings} {path? : Option String}
    {given : List String} {error : CommandError}
    (h : readUris surroundings path? given = .error error) :
    ∃ fault, error = .unreadableInput fault ∨ ∃ path, error = .unreadableFile path fault := by
  cases path? with
  | none => cases h
  | some path =>
      have htext : readUriText surroundings path = .error error := by
        rw [readUris] at h
        cases hread : readUriText surroundings path with
        | error fault =>
            rw [hread] at h
            cases h
            rfl
        | ok text =>
            rw [hread] at h
            cases h
      rw [readUriText] at htext
      split at htext
      · obtain ⟨fault, rfl⟩ := exists_fault_of_mapError htext
        exact ⟨fault, Or.inl rfl⟩
      · obtain ⟨fault, rfl⟩ := exists_fault_of_mapError htext
        exact ⟨fault, Or.inr ⟨path, rfl⟩⟩

section Agreement

variable {serialize : Serializer} {surroundings : Surroundings} {lists texts : List String}
  (hreads : surroundings.Reads lists texts) (hne : lists ≠ [])
include hreads hne

theorem Command.run_check : runWith serialize surroundings (.check lists) =
    ⟨(loadFiles surroundings .skip (.empty .inert) lists).1,
      (CheckReport.ofTexts lists texts).text,
      if (CheckReport.ofTexts lists texts).failed = 0 then none
      else some (.rulesFailed (CheckReport.ofTexts lists texts).failed)⟩ := by
  rw [runWith, runCheck, loadFiles_skip (.empty .inert) hreads hne]
  rfl

/-- A check succeeds if there are no errors to list. -/
theorem Command.exitCode_check_eq_zero_iff :
    (runWith serialize surroundings (.check lists)).exitCode = 0 ↔
      LoadedList.errorsOf (LoadedList.ofTexts lists texts) = [] := by
  rw [run_check hreads hne, CommandResult.exitCode, CheckReport.failed_eq_length,
    CheckReport.ofTexts]
  cases LoadedList.errorsOf (LoadedList.ofTexts lists texts) with
  | nil => exact iff_of_true rfl rfl
  | cons error errors => exact iff_of_false Nat.one_ne_zero (List.cons_ne_nil error errors)

theorem Command.failsAt_dump {path : String} {error : CompileError}
    (herror : (LoadedList.errorsOf (LoadedList.ofTexts lists texts)).head? = some (path, error))
    (json : Bool) : (runWith serialize surroundings (.dump lists json)).FailsAt path error := by
  rw [runWith, runDump, loadFiles_abort_of_error (.empty .inert) hreads hne herror]
  exact CommandResult.failsAt_failure _ _ _

section Valid

variable (hvalid : LoadedList.errorsOf (LoadedList.ofTexts lists texts) = [])
include hvalid

theorem Command.run_dump_of_no_errors (json : Bool) :
    runWith serialize surroundings (.dump lists json) =
      let events := (loadFiles surroundings .abort (.empty .inert) lists).1
      let rules := texts.flatMap FilterList.rules
      if json then .ofJson serialize "stats" events (ProgramStats.ofRules rules).json
      else .success events (listing rules) := by
  rw [runWith, runDump, loadFiles_abort_of_no_errors (.empty .inert) hreads hne hvalid]
  rfl

end Valid

/-- A dump succeeds if there are no errors to list. -/
theorem Command.exitCode_dump_eq_zero_iff (hserialize : serialize.IsTotal) (json : Bool) :
    (runWith serialize surroundings (.dump lists json)).exitCode = 0 ↔
      LoadedList.errorsOf (LoadedList.ofTexts lists texts) = [] := by
  cases herrors : LoadedList.errorsOf (LoadedList.ofTexts lists texts) with
  | nil =>
      refine iff_of_true ?_ rfl
      rw [run_dump_of_no_errors hreads hne herrors]
      cases json with
      | false => rfl
      | true =>
          obtain ⟨text, htext⟩ := hserialize
            (ProgramStats.ofRules (texts.flatMap FilterList.rules)).json
          simp only [if_true, CommandResult.ofJson, htext]
          rfl
  | cons error errors =>
      have hfails : (runWith serialize surroundings (.dump lists json)).FailsAt _ _ :=
        failsAt_dump hreads hne (congrArg List.head? herrors) json
      rw [hfails.exitCode_eq]
      exact iff_of_false Nat.one_ne_zero (List.cons_ne_nil error errors)

end Agreement

section Matching

variable {serialize : Serializer} {surroundings : Surroundings} {options : MatchOptions}
  {texts : List String} (hreads : surroundings.Reads options.lists texts)
  (hne : options.lists ≠ []) (hpolicy : options.policy = .abort)
include hreads hne hpolicy

theorem MatchOptions.getsPastLoading_iff : options.GetsPastLoading surroundings ↔
    LoadedList.errorsOf (LoadedList.ofTexts options.lists texts) = [] := by
  rw [GetsPastLoading, hpolicy]
  cases herrors : LoadedList.errorsOf (LoadedList.ofTexts options.lists texts) with
  | nil =>
      rw [loadFiles_abort_of_no_errors _ hreads hne herrors]
      exact iff_of_true ⟨_, rfl⟩ rfl
  | cons error errors =>
      rw [loadFiles_abort_of_error _ hreads hne (congrArg List.head? herrors)]
      refine iff_of_false ?_ (List.cons_ne_nil error errors)
      rintro ⟨loaded, hloaded⟩
      cases hloaded

theorem Command.failsAt_match {path : String} {error : CompileError}
    (herror : (LoadedList.errorsOf (LoadedList.ofTexts options.lists texts)).head? =
      some (path, error)) :
    (runWith serialize surroundings (.matchUris options)).FailsAt path error := by
  rw [runWith, runMatch, MatchOptions.report, hpolicy,
    loadFiles_abort_of_error _ hreads hne herror]
  exact CommandResult.failsAt_failure _ _ _

/-- A match with valid lists may still fail, but not for its lists. -/
theorem Command.error_match_ne_invalidList
    (hvalid : LoadedList.errorsOf (LoadedList.ofTexts options.lists texts) = []) (path : String)
    (error : CompileError) :
    (runWith serialize surroundings (.matchUris options)).error ≠
      some (.invalidList path error) := by
  rw [runWith, runMatch, MatchOptions.report, hpolicy,
    loadFiles_abort_of_no_errors _ hreads hne hvalid]
  dsimp only
  cases huris : readUris (surroundings.afterFiles options.lists) options.uriFile
      options.uris with
  | error fault =>
      obtain ⟨fault, rfl | ⟨path, rfl⟩⟩ := error_of_readUris huris
      · exact fun h => by cases h
      · exact fun h => by cases h
  | ok uris =>
      cases uris with
      | nil => exact fun h => by cases h
      | cons uri uris =>
          dsimp only
          split
          · rw [CommandResult.ofJson]
            split <;> exact fun h => by cases h
          · exact fun h => by cases h

end Matching

/-- Joined texts give a set the rules of each of them. -/
theorem RuleSet.load_skip_intercalate (set : RuleSet) (texts : List String) :
    set.load .skip ("\n".intercalate texts) = (set.append (texts.flatMap FilterList.rules),
      .ok (ListStats.ofOutcomes (FilterList.outcomes ("\n".intercalate texts)))) := by
  rw [load_skip, FilterList.rules_intercalate]

/-- Checking, dumping and matching agree on which lists are valid.  For lists that can be read,
at least one, a check prints for each of them its path, its counts, which are those of its text
and add up to its lines, and its errors, and behind the lists the totals of the rules and of the
errors.  A check and a dump succeed, and a match that does not pass over errors gets past loading,
if and only if a check lists no errors.  Otherwise the dump and the match have no output and fail
at the first error that the check lists, and it is only then that a match fails for its lists.
The set that a check loads, and a dump if it succeeds, has the rules of the texts, one text after
the other, which are those of the texts joined by line feeds. -/
theorem check_dump_match_agree {serialize : Serializer} (hserialize : serialize.IsTotal)
    {surroundings : Surroundings} {options : MatchOptions} {texts : List String}
    (hreads : surroundings.Reads options.lists texts) (hne : options.lists ≠ [])
    (hpolicy : options.policy = .abort) (json : Bool) :
    let check := Command.runWith serialize surroundings (.check options.lists)
    let dump := Command.runWith serialize surroundings (.dump options.lists json)
    let matching := Command.runWith serialize surroundings (.matchUris options)
    let fresh := RuleSet.empty .inert
    let rules := texts.flatMap fun text => (fresh.load .skip text).1.rules
    let joined := "\n".intercalate texts
    ∃ lists : List LoadedList,
      (lists.map LoadedList.path = options.lists ∧
        List.Forall₂ (fun list text => (fresh.load .skip text).2 = .ok list.stats) lists texts ∧
        ∀ list ∈ lists, list.stats.lines = list.stats.blank + list.stats.comments +
          list.stats.elementHiding + list.stats.rules + list.stats.errors.length) ∧
      check.output = CheckLine.join (lists.flatMap LoadedList.checkLines ++
        [.total (lists.map fun list => list.stats.rules).sum
          (lists.map fun list => list.stats.errors.length).sum]) ∧
      ((check.exitCode = 0 ↔ LoadedList.errorsOf lists = []) ∧
        (check.exitCode = 0 ↔ dump.exitCode = 0) ∧
        (dump.exitCode = 0 ↔ options.GetsPastLoading surroundings)) ∧
      ((∀ path error, (LoadedList.errorsOf lists).head? = some (path, error) →
          dump.FailsAt path error ∧ matching.FailsAt path error) ∧
        (LoadedList.errorsOf lists = [] → ∀ path error,
          matching.error ≠ some (.invalidList path error))) ∧
      ((loadFiles surroundings .skip fresh options.lists).2 = .ok (⟨rules, .inert⟩, lists) ∧
        ∃ stats, fresh.load .skip joined = (⟨rules, .inert⟩, .ok stats)) ∧
      (LoadedList.errorsOf lists = [] →
        (loadFiles surroundings .abort fresh options.lists).2 = .ok (⟨rules, .inert⟩, lists) ∧
        fresh.load .abort joined = fresh.load .skip joined ∧
        (json = false → dump.output = listing rules) ∧
        (json = true → ∃ text, serialize (ProgramStats.ofRules rules).json = .ok text ∧
          dump.output = text ++ "\n")) := by
  intro check dump matching fresh rules joined
  have hrules : texts.flatMap FilterList.rules = rules :=
    List.flatMap_congr fun text _ => by rw [fresh.load_skip]; rfl
  have houtput : check.output = (CheckReport.ofTexts options.lists texts).text :=
    congrArg CommandResult.output (Command.run_check hreads hne)
  have hcheck : check.exitCode = 0 ↔
      LoadedList.errorsOf (LoadedList.ofTexts options.lists texts) = [] :=
    Command.exitCode_check_eq_zero_iff hreads hne
  have hdump : dump.exitCode = 0 ↔
      LoadedList.errorsOf (LoadedList.ofTexts options.lists texts) = [] :=
    Command.exitCode_dump_eq_zero_iff hreads hne hserialize json
  have hmatch : options.GetsPastLoading surroundings ↔
      LoadedList.errorsOf (LoadedList.ofTexts options.lists texts) = [] :=
    MatchOptions.getsPastLoading_iff hreads hne hpolicy
  refine ⟨LoadedList.ofTexts options.lists texts,
    ⟨hreads.map_path, hreads.forall₂_stats fresh, fun _ => LoadedList.lines_eq_of_mem_ofTexts⟩,
    ?_, ⟨hcheck, hcheck.trans hdump.symm, hdump.trans hmatch.symm⟩, ⟨?_, ?_⟩, ⟨?_, ?_⟩, ?_⟩
  · rw [houtput, CheckReport.text_eq_join, CheckReport.failed_eq_sum, hreads.sum_rules]
    rfl
  · intro path error herror
    exact ⟨Command.failsAt_dump hreads hne herror json,
      Command.failsAt_match hreads hne hpolicy herror⟩
  · intro hvalid
    exact Command.error_match_ne_invalidList hreads hne hpolicy hvalid
  · rw [loadFiles_skip fresh hreads hne, hrules]
    rfl
  · exact ⟨_, hrules ▸ fresh.load_skip_intercalate texts⟩
  · intro hvalid
    have hload := loadFiles_abort_of_no_errors fresh hreads hne hvalid
    have herrors : FilterList.errors joined = [] := by
      rw [FilterList.errors_intercalate, ← hreads.map_error, hvalid]
      rfl
    have hrun : dump = _ := Command.run_dump_of_no_errors hreads hne hvalid json
    rw [hrules] at hload hrun
    refine ⟨congrArg Prod.snd hload, ?_, ?_, ?_⟩
    · rw [fresh.load_abort, herrors]
      rfl
    · rintro rfl
      exact congrArg CommandResult.output hrun
    · rintro rfl
      obtain ⟨text, htext⟩ := hserialize (ProgramStats.ofRules rules).json
      refine ⟨text, htext, ?_⟩
      rw [hrun]
      simp only [if_true, CommandResult.ofJson, htext]
      rfl

/-- Two files, the second of them with an error behind a rule. -/
theorem fail_at_second_list :
    let surroundings := Surroundings.ofFiles
      [("a", "b".toByteArray), ("c", "d\n<".toByteArray)] ByteArray.empty
    let error : CompileError := ⟨"<", "<", .invalidByte 0 0x3c⟩
    let check := Command.run surroundings (.check ["a", "c"])
    check.exitCode ≠ 0 ∧
      check.output = String.join
        ["a\n", "  Lines:          1\n", "  Rules:          1\n", "  Comments:       0\n",
          "  Blank:          0\n", "  Element hiding: 0\n", "  Errors:         0\n",
          "c\n", "  Lines:          2\n", "  Rules:          1\n", "  Comments:       0\n",
          "  Blank:          0\n", "  Element hiding: 0\n", "  Errors:         1\n",
          "    " ++ error.message ++ "\n", "Total: 2 rules compiled, 1 failed\n"] ∧
      (Command.run surroundings (.dump ["a", "c"] false)).FailsAt "c" error ∧
      (Command.run surroundings
        (.matchUris ⟨["a", "c"], .inert, .abort, false, none, ["b"]⟩)).FailsAt "c" error := by
  intro surroundings error check
  let files : List (String × String) := [("a", "b"), ("c", "d\n<")]
  let options : MatchOptions := ⟨["a", "c"], .inert, .abort, false, none, ["b"]⟩
  have hfiles : ∀ file ∈ files,
      surroundings.source file.1 = .ok (.file file.2.toByteArray) := by
    simp only [files, List.mem_cons, List.not_mem_nil, or_false, forall_eq_or_imp, forall_eq]
    exact ⟨rfl, rfl⟩
  have hreads : surroundings.Reads options.lists ["b", "d\n<"] :=
    Surroundings.reads_of_files hfiles
  obtain ⟨lists, ⟨hpaths, hstats, -⟩, houtput, ⟨hcheck, -, -⟩, ⟨hfails, -⟩, -, -⟩ :=
    check_dump_match_agree (fun value => ⟨_, rfl⟩) hreads (List.cons_ne_nil _ _) rfl false
  have hfirst : ((RuleSet.empty .inert).load .skip "b").2 = .ok ⟨1, 0, 0, 0, 1, []⟩ := by
    decide +kernel
  have hsecond : ((RuleSet.empty .inert).load .skip "d\n<").2 =
      .ok ⟨2, 0, 0, 0, 1, [error]⟩ := by
    decide +kernel
  obtain ⟨⟨_, _⟩, _, hcounts, hothers, rfl⟩ := List.forall₂_cons_right_iff.1 hstats
  obtain ⟨⟨_, _⟩, _, hcounts', hend, rfl⟩ := List.forall₂_cons_right_iff.1 hothers
  obtain rfl := List.forall₂_nil_right_iff.1 hend
  cases hpaths
  cases hfirst.symm.trans hcounts
  cases hsecond.symm.trans hcounts'
  obtain ⟨hdump, hmatch⟩ := hfails "c" error rfl
  refine ⟨fun hzero => ?_, ?_, hdump, hmatch⟩
  · exact List.cons_ne_nil _ _ (hcheck.1 hzero)
  · exact houtput.trans (by decide +kernel)

end UrlFilter
