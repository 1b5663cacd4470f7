/-
Times of a measurement.

The times of the batches are counted in nanoseconds and reported as decimals
with a fixed number of places.
-/

namespace UrlFilter

/-- The quotient of two numbers with some decimal places, rounded to the nearest
and up from the middle. -/
def fixedPoint (places numerator denominator : Nat) : String :=
  let unit := Nat.pow 10 places
  let scaled := (2 * numerator * unit + denominator) / (2 * denominator)
  let digits := Nat.toDigits 10 (scaled % unit)
  toString (scaled / unit) ++ "." ++
    String.ofList (List.replicate (places - digits.length) '0' ++ digits)

/-- How long some batches took, each and together, and how many queries they
hold. -/
structure Timing where
  samples : List Nat
  total : Nat
  queries : Nat
  deriving Repr

namespace Timing

/-- The sample at a percentile, by nearest rank. -/
def percentile (timing : Timing) (percent : Nat) : Nat :=
  let sorted := timing.samples.mergeSort
  let rank := (sorted.length * percent + 99) / 100
  sorted.getD (rank - 1) 0

/-- The lines that report the times. -/
def text (timing : Timing) : String :=
  let milliseconds := fun places nanoseconds => fixedPoint places nanoseconds 1000000
  String.join
    ["  Total: ", milliseconds 2 timing.total, " ms\n",
     "  Avg: ", fixedPoint 2 timing.total (1000 * timing.queries), " us/query\n",
     "  Batch P50: ", milliseconds 3 (timing.percentile 50), " ms\n",
     "  Batch P95: ", milliseconds 3 (timing.percentile 95), " ms\n",
     "  Batch P99: ", milliseconds 3 (timing.percentile 99), " ms\n",
     "  Throughput: ", toString (timing.queries * 1000000000 / timing.total),
     " queries/sec\n"]

end Timing

end UrlFilter
