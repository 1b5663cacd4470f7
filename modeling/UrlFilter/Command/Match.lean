/-
The report of a match.
-/
import UrlFilter.Json
import UrlFilter.RuleSet

namespace UrlFilter

/-- A query with the rules that accept it. -/
structure QueryMatch where
  query : Query
  rules : List String
  deriving DecidableEq, Repr

/-- The answers of a rule set to some queries. -/
structure MatchReport where
  ruleCount : Nat
  results : List QueryMatch
  deriving DecidableEq, Repr

namespace MatchReport

/-- Match queries in order. -/
def ofQueries (set : RuleSet) (queries : List Query) : MatchReport where
  ruleCount := set.size
  results := queries.map fun query => ⟨query, set.answers query⟩

/-- The number of queries that some rule accepts. -/
def matched (report : MatchReport) : Nat :=
  report.results.countP fun result => !result.rules.isEmpty

/-- One line for every query and rule that accepts it, with a tab between. -/
def plain (report : MatchReport) : String :=
  String.join (report.results.flatMap fun result =>
    result.rules.map fun rule => result.query.uri ++ "\t" ++ rule ++ "\n")

/-- The report as a JSON value. -/
def json (report : MatchReport) : Json :=
  .object
    [("rules", .number report.ruleCount),
     ("queries", .number report.results.length),
     ("matched", .number report.matched),
     ("results", .array (report.results.map fun result =>
       .object
         [("uri", .text result.query.uri),
          ("domain", .text result.query.domain),
          ("rules", .array (result.rules.map .text))]))]

end MatchReport

end UrlFilter
