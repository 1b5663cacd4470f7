/-
Running commands.

Every command loads its lists first, into a set of rules without any, and stops at the
first list that cannot be loaded.  What a command prints is a function of what it reads,
and of the serializer that gives a JSON value its text.
-/
import UrlFilter.Command.Basic
import UrlFilter.Command.Bench
import UrlFilter.Command.Check
import UrlFilter.Command.Match
import UrlFilter.Command.Result
import UrlFilter.Listing

namespace UrlFilter

/-- The counts of a dump as a JSON value. -/
def ProgramStats.json (stats : ProgramStats) : Json :=
  .object
    [("rules", .number stats.rules),
     ("instructions", .number stats.instructions),
     ("char", .number stats.char),
     ("skip_to", .number stats.skipTo),
     ("skip_scheme", .number stats.skipScheme),
     ("match", .number stats.accept)]

/-- The report of a match.  The lists are loaded before the URIs are read, so a list
in the standard input leaves no URIs there. -/
def MatchOptions.report (options : MatchOptions) (surroundings : Surroundings) :
    List Event × Except CommandError MatchReport :=
  match loadFiles surroundings options.policy (.empty options.mode) options.lists with
  | (events, .error error) => (events, .error error)
  | (events, .ok (set, _)) =>
      match readUris (surroundings.afterFiles options.lists) options.uriFile options.uris with
      | .error error => (events, .error error)
      | .ok [] => (events, .error .noUris)
      | .ok uris => (events, .ok (MatchReport.ofQueries set (uris.map Query.mk)))

/-- The batch of a measurement, with rules from lists in which errors are passed
over. -/
def Bench.prepare (surroundings : Surroundings) (lists : List String) (uriFile : String)
    (iterations : Nat) : List Event × Except CommandError Bench :=
  match loadFiles surroundings .skip (.empty .inert) lists with
  | (events, .error error) => (events, .error error)
  | (events, .ok (set, _)) =>
      match readUris (surroundings.afterFiles lists) (some uriFile) [] with
      | .error error => (events, .error error)
      | .ok [] => (events, .error .noUrisToMeasure)
      | .ok uris => (events, .ok ⟨set, uris.map Query.mk, iterations⟩)

/-- Print the text of a JSON value, if it has one. -/
def CommandResult.ofJson (serialize : Serializer) (subject : String) (events : List Event)
    (value : Json) : CommandResult :=
  match serialize value with
  | .ok text => .success events (text ++ "\n")
  | .error reason => .failure events (.unserializable subject reason)

namespace Command

/-- Match URIs, and report in one of two forms. -/
def runMatch (serialize : Serializer) (surroundings : Surroundings) (options : MatchOptions) :
    CommandResult :=
  match options.report surroundings with
  | (events, .error error) => .failure events error
  | (events, .ok report) =>
      if options.json then .ofJson serialize "report" events report.json
      else .success events report.plain

/-- Check lists, and fail if there is an error in them. -/
def runCheck (surroundings : Surroundings) (lists : List String) : CommandResult :=
  match loadFiles surroundings .skip (.empty .inert) lists with
  | (events, .error error) => .failure events error
  | (events, .ok (set, loaded)) =>
      let report := CheckReport.mk set loaded
      ⟨events, report.text,
        if report.failed = 0 then none else some (.rulesFailed report.failed)⟩

/-- List what lists are compiled to, or only count it. -/
def runDump (serialize : Serializer) (surroundings : Surroundings) (lists : List String)
    (json : Bool) : CommandResult :=
  match loadFiles surroundings .abort (.empty .inert) lists with
  | (events, .error error) => .failure events error
  | (events, .ok (set, _)) =>
      if json then .ofJson serialize "stats" events (ProgramStats.ofRules set.rules).json
      else .success events (listing set.rules)

/-- Measure matching, but for the times. -/
def runBench (surroundings : Surroundings) (lists : List String) (uriFile : String)
    (iterations : Nat) : CommandResult :=
  match Bench.prepare surroundings lists uriFile iterations with
  | (events, .error error) => .failure events error
  | (events, .ok prepared) => .success events prepared.text

/-- Run a command with some serializer. -/
def runWith (serialize : Serializer) (surroundings : Surroundings) : Command → CommandResult
  | matchUris options => runMatch serialize surroundings options
  | check lists => runCheck surroundings lists
  | dump lists json => runDump serialize surroundings lists json
  | bench lists uriFile iterations => runBench surroundings lists uriFile iterations

/-- Run a command with the serializer that puts every member and element on a line. -/
def run (surroundings : Surroundings) (command : Command) : CommandResult :=
  runWith (fun value => .ok (value.pretty 0)) surroundings command

end Command

end UrlFilter
