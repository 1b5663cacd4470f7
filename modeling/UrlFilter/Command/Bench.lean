/-
The report of a measurement.

A measurement matches one batch of URIs again and again.  What it counts is
known without a clock; the times are for the caller to take.
-/
import UrlFilter.RuleSet

namespace UrlFilter

/-- A batch of URIs, the rules to match it with, and how often. -/
structure Bench where
  set : RuleSet
  queries : List Query
  iterations : Nat
  deriving DecidableEq, Repr

namespace Bench

/-- The number of times that the batch is matched, which is at least once. -/
def batches (bench : Bench) : Nat := max bench.iterations 1

/-- The number of times that the batch is matched before, without being
measured. -/
def warmups (bench : Bench) : Nat := max (bench.iterations / 10) 1

/-- The number of answers to one batch. -/
def matchesPerBatch (bench : Bench) : Nat := (bench.set.answersAll bench.queries).length

/-- The line above and below the title. -/
def rule : String := String.ofList (List.replicate 60 '=') ++ "\n"

/-- What is measured, and what is counted. -/
def text (bench : Bench) : String :=
  String.join
    [rule, "abpvm Benchmark\n", rule,
     "Rules:      ", toString bench.set.size, "\n",
     "Queries:    ", toString bench.queries.length, "\n",
     "Iterations: ", toString bench.iterations, "\n",
     "\n",
     "Warmup...\n",
     "match_all:\n",
     "  Batches: ", toString bench.batches, "\n",
     "  Queries: ", toString (bench.queries.length * bench.batches), "\n",
     "  Matches per batch: ", toString bench.matchesPerBatch, "\n"]

end Bench

end UrlFilter
