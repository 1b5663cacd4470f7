/-
The two forms of a match.

A match is reported in plain lines or as a JSON value.  Which of the two is asked for changes
nothing before the report is there, so both runs fail at the same error or both have a report.
And a plain report says what the entries of the JSON value say, entry by entry and rule by rule.
The value is told by its text if the serializer is faithful, and that is all that is asked of it.
-/
import UrlFilter.Command.Run
import UrlFilter.Proofs.Command.Loading
import UrlFilter.Proofs.FilterList.Lines
import UrlFilter.Proofs.Json
import UrlFilter.Proofs.RuleSet.Answers

namespace UrlFilter

/-- The member of an object under a name. -/
def Json.member? (name : String) : Json → Option Json
  | object members => members.lookup name
  | _ => none

/-- What a report says of one URI. -/
structure ReportEntry where
  uri : String
  domain : String
  rules : List String
  deriving DecidableEq, Repr

namespace ReportEntry

/-- The entry as a JSON value. -/
def json (entry : ReportEntry) : Json :=
  .object
    [("uri", .text entry.uri), ("domain", .text entry.domain),
     ("rules", .array (entry.rules.map .text))]

/-- The plain lines of an entry: the URI, a tab and a rule, for every rule. -/
def lines (entry : ReportEntry) : List String :=
  entry.rules.map fun rule => entry.uri ++ "\t" ++ rule ++ "\n"

/-- What there is to say of a URI, by the rules of a set. -/
def ofUri (set : RuleSet) (uri : String) : ReportEntry :=
  ⟨uri, (Query.mk uri).domain, set.answers (.mk uri)⟩

end ReportEntry

/-- A JSON value reports some entries, and the number of rules that were tried. -/
structure Json.Reports (value : Json) (ruleCount : Nat) (entries : List ReportEntry) : Prop where
  rules_eq : value.member? "rules" = some (.number ruleCount)
  queries_eq : value.member? "queries" = some (.number entries.length)
  matched_eq : value.member? "matched" =
    some (.number (entries.filter fun entry => entry.rules ≠ []).length)
  results_eq : value.member? "results" = some (.array (entries.map ReportEntry.json))

/-- The URIs in a file, or in the standard input: the trimmed lines but for the blank ones.
Without a file there are none. -/
inductive HoldsUris (surroundings : Surroundings) : Option String → List String → Prop
  | unnamed : HoldsUris surroundings none []
  | named {path text : String} {lines : List String} :
      readUriText surroundings path = .ok text → TrimmedLines text lines →
      HoldsUris surroundings (some path) (lines.filter fun line => line != "")

/-- A match comes to a set of rules and to URIs: its lists are loaded to the set, and the URIs
are those of the file and then the given ones as they are, at least one. -/
structure MatchOptions.Gathers (options : MatchOptions) (surroundings : Surroundings)
    (set : RuleSet) (uris : List String) : Prop where
  lists_loaded : ∃ lists,
    (loadFiles surroundings options.policy (.empty options.mode) options.lists).2 =
      .ok (set, lists)
  uris_read : ∃ held,
    HoldsUris (surroundings.afterFiles options.lists) options.uriFile held ∧
      uris = held ++ options.uris
  uris_ne_nil : uris ≠ []

theorem readUris_eq_ok_iff {surroundings : Surroundings} {path? : Option String}
    {given uris : List String} :
    readUris surroundings path? given = .ok uris ↔
      ∃ held, HoldsUris surroundings path? held ∧ uris = held ++ given := by
  constructor
  · intro hread
    cases path? with
    | none => exact ⟨[], .unnamed, (Except.ok.inj hread).symm⟩
    | some path =>
        cases htext : readUriText surroundings path with
        | error error =>
            simp only [readUris, htext, Except.map] at hread
            contradiction
        | ok text =>
            simp only [readUris, htext, Except.map, Except.ok.injEq] at hread
            exact ⟨urisOfText text, .named htext (trimmedLines_iff.2 rfl), hread.symm⟩
  · rintro ⟨held, hheld, rfl⟩
    cases hheld with
    | unnamed => rfl
    | named htext hlines =>
        obtain rfl := trimmedLines_iff.1 hlines
        simp only [readUris, htext, Except.map]
        rfl

namespace MatchReport

variable (set : RuleSet) (uris : List String)

theorem results_ofQueries : (ofQueries set (uris.map Query.mk)).results =
    uris.map fun uri => ⟨.mk uri, set.answers (.mk uri)⟩ := by
  rw [ofQueries, List.map_map]
  rfl

theorem plain_ofQueries : (ofQueries set (uris.map Query.mk)).plain =
    String.join ((uris.map (ReportEntry.ofUri set)).flatMap ReportEntry.lines) := by
  rw [plain, results_ofQueries, List.flatMap_map, List.flatMap_map]
  rfl

theorem reports_ofQueries : (ofQueries set (uris.map Query.mk)).json.Reports set.size
    (uris.map (ReportEntry.ofUri set)) := by
  have hmatched : (ofQueries set (uris.map Query.mk)).matched =
      ((uris.map (ReportEntry.ofUri set)).filter fun entry => entry.rules ≠ []).length := by
    rw [matched, results_ofQueries, ← List.countP_eq_length_filter, List.countP_map,
      List.countP_map]
    apply List.countP_congr
    intro uri _
    show (!(set.answers (.mk uri)).isEmpty) = true ↔ decide (set.answers (.mk uri) ≠ []) = true
    simp
  have hresults : (ofQueries set (uris.map Query.mk)).json.member? "results" =
      some (.array ((ofQueries set (uris.map Query.mk)).results.map fun result =>
        (ReportEntry.mk result.query.uri result.query.domain result.rules).json)) := rfl
  exact {
    rules_eq := rfl
    queries_eq := by
      have hqueries : (ofQueries set (uris.map Query.mk)).json.member? "queries" =
        some (.number (ofQueries set (uris.map Query.mk)).results.length) := rfl
      rw [hqueries, results_ofQueries, List.length_map, List.length_map]
    matched_eq := congrArg (fun count => some (Json.number count)) hmatched
    results_eq := by
      rw [hresults, results_ofQueries, List.map_map, List.map_map]
      rfl }

end MatchReport

namespace MatchOptions

variable {options : MatchOptions} {surroundings : Surroundings}

/-- What is gathered is matched, and reported. -/
theorem Gathers.report_eq {set : RuleSet} {uris : List String}
    (h : options.Gathers surroundings set uris) :
    options.report surroundings =
      ((loadFiles surroundings options.policy (.empty options.mode) options.lists).1,
        .ok (MatchReport.ofQueries set (uris.map Query.mk))) := by
  obtain ⟨lists, hlists⟩ := h.lists_loaded
  have huris := readUris_eq_ok_iff.2 h.uris_read
  have hload : loadFiles surroundings options.policy (.empty options.mode) options.lists =
      ((loadFiles surroundings options.policy (.empty options.mode) options.lists).1,
        .ok (set, lists)) :=
    Prod.ext rfl hlists
  rw [report, hload]
  simp only [huris]
  cases uris with
  | nil => exact absurd rfl h.uris_ne_nil
  | cons uri uris => rfl

/-- There is a report only of what was gathered. -/
theorem exists_gathers_of_report {events : List Event} {found : MatchReport}
    (h : options.report surroundings = (events, .ok found)) :
    ∃ set uris, options.Gathers surroundings set uris := by
  unfold report at h
  split at h
  · cases h
  · rename_i set lists hload
    split at h
    · cases h
    · cases h
    · rename_i uris hne huris
      exact ⟨set, uris, ⟨lists, congrArg Prod.snd hload⟩, readUris_eq_ok_iff.1 huris, hne⟩

/-- The form that is asked for plays no part in the report. -/
theorem report_withJson (json : Bool) :
    ({ options with json := json } : MatchOptions).report surroundings =
      options.report surroundings :=
  rfl

/-- A match fails if there is no report, and succeeds with a form of the report if there is. -/
theorem runWith_cases {serialize : Serializer} (hserialize : serialize.IsTotal)
    (options : MatchOptions) (surroundings : Surroundings) :
    (∃ events error, options.report surroundings = (events, .error error) ∧
      ∀ json, Command.runWith serialize surroundings
        (.matchUris { options with json := json }) = .failure events error) ∨
    ∃ events found text, options.report surroundings = (events, .ok found) ∧
      serialize found.json = .ok text ∧
      ∀ json, Command.runWith serialize surroundings
        (.matchUris { options with json := json }) =
          .success events (if json then text ++ "\n" else found.plain) := by
  rcases hreport : options.report surroundings with ⟨events, error | found⟩
  · refine Or.inl ⟨events, error, rfl, ?_⟩
    intro json
    rw [Command.runWith, Command.runMatch, report_withJson, hreport]
  · obtain ⟨text, htext⟩ := hserialize found.json
    refine Or.inr ⟨events, found, text, rfl, htext, ?_⟩
    intro json
    rw [Command.runWith, Command.runMatch, report_withJson, hreport]
    cases json with
    | false => rfl
    | true => simp only [if_true, CommandResult.ofJson, htext]

end MatchOptions

/-- The two forms of a match agree, whatever the serializer, if it is faithful.  The runs for the
plain lines and for the JSON value tell the same events and succeed together or fail with the same
error, and failing they have no output.  They succeed exactly if the lists load and there are
URIs: those of the file, trimmed and without the blank ones, and then the given ones as they are.
Then the JSON output is the text of one value and of no other.  That value has an entry for every
URI in order, with its domain and its answers, and counts the entries and those with answers.
The plain output has a line for every entry and every rule in it, and the rules of all entries
are the answers to the batch. -/
theorem match_formats_agree {serialize : Serializer} (hserialize : serialize.IsFaithful)
    (surroundings : Surroundings) (options : MatchOptions) :
    let plain :=
      Command.runWith serialize surroundings (.matchUris { options with json := false })
    let json := Command.runWith serialize surroundings (.matchUris { options with json := true })
    (plain.events = json.events ∧ plain.error = json.error ∧ plain.exitCode = json.exitCode) ∧
      (plain.error ≠ none → plain.output = "" ∧ json.output = "") ∧
      (plain.error = none ↔ ∃ set uris, options.Gathers surroundings set uris) ∧
      ∀ set uris, options.Gathers surroundings set uris →
        ∃ (value : Json) (text : String) (entries : List ReportEntry),
          (serialize value = .ok text ∧ json.output = text ++ "\n" ∧
            ∀ other, serialize other = .ok text → other = value) ∧
            value.Reports set.size entries ∧
            plain.output = String.join (entries.flatMap ReportEntry.lines) ∧
            entries.map ReportEntry.uri = uris ∧
            (∀ entry ∈ entries, entry.domain = (Query.mk entry.uri).domain ∧
              entry.rules = set.answers (.mk entry.uri)) ∧
            entries.flatMap ReportEntry.rules = set.answersAll (uris.map Query.mk) := by
  intro plain json
  obtain ⟨events, error, hreport, hrun⟩ | ⟨events, found, text, hreport, htext, hrun⟩ :=
    options.runWith_cases hserialize.total surroundings
  · have hplain : plain = .failure events error := hrun false
    have hjson : json = .failure events error := hrun true
    have hnot : ∀ set uris, ¬options.Gathers surroundings set uris := by
      intro set uris hgathers
      rw [hgathers.report_eq] at hreport
      cases hreport
    rw [hplain, hjson]
    refine ⟨⟨rfl, rfl, rfl⟩, fun _ => ⟨rfl, rfl⟩, ?_, ?_⟩
    · apply iff_of_false (Option.some_ne_none error)
      rintro ⟨set, uris, hgathers⟩
      exact hnot set uris hgathers
    · intro set uris hgathers
      exact absurd hgathers (hnot set uris)
  · have hplain : plain = .success events found.plain := hrun false
    have hjson : json = .success events (text ++ "\n") := hrun true
    rw [hplain, hjson]
    refine ⟨⟨rfl, rfl, rfl⟩, fun h => absurd rfl h, ?_, ?_⟩
    · exact iff_of_true rfl (MatchOptions.exists_gathers_of_report hreport)
    · intro set uris hgathers
      obtain rfl : MatchReport.ofQueries set (uris.map Query.mk) = found := by
        rw [hgathers.report_eq] at hreport
        exact Except.ok.inj (congrArg Prod.snd hreport)
      refine ⟨_, text, uris.map (ReportEntry.ofUri set), ⟨htext, rfl, ?_⟩,
        MatchReport.reports_ofQueries set uris, MatchReport.plain_ofQueries set uris, ?_, ?_, ?_⟩
      · intro other hother
        exact hserialize.injective _ _ text hother htext
      · rw [List.map_map]
        exact List.map_id uris
      · intro entry hentry
        obtain ⟨uri, -, rfl⟩ := List.mem_map.1 hentry
        exact ⟨rfl, rfl⟩
      · rw [RuleSet.answersAll_eq_flatMap, List.flatMap_map, List.flatMap_map]
        rfl

/-- A list with one rule, a file with one URI between blanks, and a URI that no rule accepts. -/
theorem match_formats_agree_on_file :
    let surroundings := Surroundings.ofFiles
      [("list", "ad".toByteArray), ("uris", " http://ad.com\n\n".toByteArray)] ByteArray.empty
    let options : MatchOptions := ⟨["list"], .inert, .skip, false, some "uris", [" b"]⟩
    let plain := Command.run surroundings (.matchUris options)
    let json := Command.run surroundings (.matchUris { options with json := true })
    let entries : List ReportEntry := [⟨"http://ad.com", "ad.com", ["ad"]⟩, ⟨" b", "", []⟩]
    json.error = none ∧ plain.output = "http://ad.com\tad\n" ∧
      ∃ value : Json, json.output = value.pretty 0 ++ "\n" ∧ value.Reports 1 entries := by
  intro surroundings options plain json entries
  have hreads : surroundings.Reads options.lists ["ad"] :=
    .cons (decodeText_toByteArray "ad") (.nil _)
  let set : RuleSet := (RuleSet.empty .inert).append (["ad"].flatMap FilterList.rules)
  have hgathers : options.Gathers surroundings set ["http://ad.com", " b"] := {
    lists_loaded := ⟨_, congrArg Prod.snd
      (loadFiles_skip (.empty .inert) hreads (List.cons_ne_nil _ _))⟩
    uris_read := by
      have htext : readUriText surroundings "uris" = .ok " http://ad.com\n\n" :=
        congrArg (Except.mapError (CommandError.unreadableFile "uris"))
          (decodeText_toByteArray " http://ad.com\n\n")
      have hlines : TrimmedLines " http://ad.com\n\n" ["http://ad.com", ""] :=
        trimmedLines_iff.2 (by decide +kernel)
      exact ⟨["http://ad.com"], .named htext hlines, rfl⟩
    uris_ne_nil := List.cons_ne_nil _ _ }
  obtain ⟨⟨-, herror, -⟩, -, hsuccess, hreports⟩ :=
    match_formats_agree Json.isFaithful_pretty surroundings options
  obtain ⟨value, text, found, ⟨htext, hjson, -⟩, hvalue, hplain, huris, hfound, -⟩ :=
    hreports _ _ hgathers
  cases htext
  have hofUri : ∀ entry ∈ found, ReportEntry.ofUri set entry.uri = entry := by
    intro entry hentry
    obtain ⟨hdomain, hrules⟩ := hfound entry hentry
    rw [ReportEntry.ofUri, ← hdomain, ← hrules]
  obtain rfl : found = entries := by
    calc found = found.map fun entry => ReportEntry.ofUri set entry.uri := by
          rw [List.map_congr_left hofUri, List.map_id']
      _ = (found.map ReportEntry.uri).map (ReportEntry.ofUri set) := by
          rw [List.map_map]
          rfl
      _ = entries := by
          rw [huris]
          decide +kernel
  refine ⟨herror ▸ hsuccess.2 ⟨_, _, hgathers⟩, ?_, value, hjson, hvalue⟩
  exact hplain.trans (by decide +kernel)

end UrlFilter
