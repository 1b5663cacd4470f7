/-
The report of a check.
-/
import UrlFilter.Command.Loading

namespace UrlFilter

/-- The counts of a list, and its errors, each on a line. -/
def LoadedList.checkText (list : LoadedList) : String :=
  String.join
    ([list.path, "\n",
      "  Lines:          ", toString list.stats.lines, "\n",
      "  Rules:          ", toString list.stats.rules, "\n",
      "  Comments:       ", toString list.stats.comments, "\n",
      "  Blank:          ", toString list.stats.blank, "\n",
      "  Element hiding: ", toString list.stats.elementHiding, "\n",
      "  Errors:         ", toString list.stats.errors.length, "\n"] ++
     list.stats.errors.map fun error => "    " ++ error.message ++ "\n")

/-- What a check has loaded: the rules of all lists, and the counts of each. -/
structure CheckReport where
  set : RuleSet
  lists : List LoadedList
  deriving DecidableEq, Repr

namespace CheckReport

/-- The number of lines that could not be compiled. -/
def failed (report : CheckReport) : Nat :=
  report.lists.foldl (fun failed list => failed + list.stats.errors.length) 0

/-- The text of every list, and the totals. -/
def text (report : CheckReport) : String :=
  String.join (report.lists.map LoadedList.checkText) ++
    "Total: " ++ toString report.set.size ++ " rules compiled, " ++
    toString report.failed ++ " failed\n"

end CheckReport

end UrlFilter
