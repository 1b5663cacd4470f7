/-
The framing of lists.

Where the lines of a list end does not matter for what is loaded.  Two lists joined by a line
feed are loaded like one after the other, whatever stands at the seam, and line feeds with
carriage returns in front of them do what line feeds do alone.
-/
import UrlFilter.Proofs.FilterList.Joined
import UrlFilter.Proofs.RuleSet.Load

namespace UrlFilter

/-- Counts of a list that is joined from two others.  At the seam there may be a blank line that
neither of them has. -/
structure ListStats.IsJoined (joined left right : ListStats) : Prop where
  comments_eq : joined.comments = left.comments + right.comments
  elementHiding_eq : joined.elementHiding = left.elementHiding + right.elementHiding
  rules_eq : joined.rules = left.rules + right.rules
  errors_eq : joined.errors = left.errors ++ right.errors
  not_blank_eq : (joined.lines : Int) - joined.blank =
    ((left.lines : Int) - left.blank) + ((right.lines : Int) - right.blank)

/-- Blank lines at a seam are not counted as anything else. -/
theorem LineOutcome.count_append_blanks {outcome : LineOutcome} (hne : outcome ≠ blank)
    (left right : List LineOutcome) (count : Nat) :
    (left ++ List.replicate count blank ++ right).count outcome =
      left.count outcome + right.count outcome := by
  have hseam : (List.replicate count blank).count outcome = 0 :=
    List.count_eq_zero.2 fun hmem => hne (List.eq_of_mem_replicate hmem)
  rw [List.count_append, List.count_append, hseam, Nat.add_zero]

theorem ListStats.isJoined_ofOutcomes (left right : List LineOutcome) (count : Nat) :
    (ofOutcomes (left ++ List.replicate count .blank ++ right)).IsJoined
      (ofOutcomes left) (ofOutcomes right) where
  comments_eq := LineOutcome.count_append_blanks LineOutcome.noConfusion left right count
  elementHiding_eq := LineOutcome.count_append_blanks LineOutcome.noConfusion left right count
  rules_eq := by
    simp only [ofOutcomes]
    rw [LineOutcome.filterMap_append_blanks rfl, List.length_append]
  errors_eq := LineOutcome.filterMap_append_blanks rfl left right count
  not_blank_eq := by
    -- The blank lines at the seam count on both sides of the difference.
    simp only [ofOutcomes, List.length_append, List.length_replicate, List.count_append,
      List.count_replicate_self]
    omega

namespace FilterList

/-- The text with a carriage return in front of every line feed. -/
def withCarriageReturns (text : String) : String :=
  String.ofList (UrlFilter.withCarriageReturns text.toList)

theorem lines_withCarriageReturns (text : String) :
    lines (withCarriageReturns text) = lines text := by
  rw [lines_eq_map, lines_eq_map, withCarriageReturns, String.toList_ofList,
    map_trim_lines_withCarriageReturns]

theorem compile_withCarriageReturns (policy : Policy) (text : String) :
    compile policy (withCarriageReturns text) = compile policy text := by
  rw [compile, compile, lines_withCarriageReturns]

end FilterList

namespace RuleSet

variable (set : RuleSet)

/-- Loading does not depend on how the lines of a list are framed.  Under `skip` a list that is
joined from two by a line feed adds the rules of the first and then those of the second, and
has the errors of the first and then those of the second; all that is not blank is counted as
often as in both together.  Under both policies a carriage return in front of every line feed
changes neither the rules nor the answer. -/
theorem load_framing :
    (∀ left right, ∃ leftRules rightRules leftStats rightStats stats,
      set.load .skip left = (set.append leftRules, .ok leftStats) ∧
        set.load .skip right = (set.append rightRules, .ok rightStats) ∧
        set.load .skip (left ++ "\n" ++ right) =
          (set.append (leftRules ++ rightRules), .ok stats) ∧
        stats.IsJoined leftStats rightStats) ∧
      ∀ policy text,
        set.load policy (FilterList.withCarriageReturns text) = set.load policy text := by
  constructor
  · intro left right
    obtain ⟨count, houtcomes⟩ := FilterList.outcomes_append_newline left right
    have hrules : FilterList.rules (left ++ "\n" ++ right) =
        FilterList.rules left ++ FilterList.rules right :=
      FilterList.filterMap_outcomes_append_newline rfl left right
    have hjoined := set.load_skip (left ++ "\n" ++ right)
    rw [hrules, houtcomes] at hjoined
    exact ⟨_, _, _, _, _, set.load_skip left, set.load_skip right, hjoined,
      ListStats.isJoined_ofOutcomes _ _ count⟩
  · intro policy text
    rw [load, load, FilterList.compile_withCarriageReturns]

end RuleSet

end UrlFilter
