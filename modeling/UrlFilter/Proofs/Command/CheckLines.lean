/-
The lines of a check.

A check is printed in lines: for every list its path, six counts with their titles and the errors,
and behind all lists the totals.
-/
import UrlFilter.Command.Check

namespace UrlFilter

/-- A line of a check. -/
inductive CheckLine
  | list (path : String)
  | count (title : String) (number : Nat)
  | failure (error : CompileError)
  | total (compiled failed : Nat)
  deriving DecidableEq, Repr

/-- A title, with its colon in a column of its own width. -/
def CheckLine.column (title : String) : String :=
  "  " ++ title ++ ":" ++ String.ofList (List.replicate (15 - title.length) ' ')

/-- What a line of a check says.  The counts of a list stand below each other. -/
def CheckLine.text : CheckLine → String
  | list path => path
  | count title number => column title ++ toString number
  | failure error => "    " ++ error.message
  | total compiled failed =>
      "Total: " ++ toString compiled ++ " rules compiled, " ++ toString failed ++ " failed"

/-- The lines for a list. -/
def LoadedList.checkLines (list : LoadedList) : List CheckLine :=
  [.list list.path, .count "Lines" list.stats.lines, .count "Rules" list.stats.rules,
    .count "Comments" list.stats.comments, .count "Blank" list.stats.blank,
    .count "Element hiding" list.stats.elementHiding,
    .count "Errors" list.stats.errors.length] ++ list.stats.errors.map .failure

/-- The text of some lines of a check. -/
def CheckLine.join (lines : List CheckLine) : String :=
  String.join (lines.map fun line => line.text ++ "\n")

theorem CheckLine.join_append (left right : List CheckLine) :
    join (left ++ right) = join left ++ join right := by
  rw [join, List.map_append, ← String.toList_inj]
  simp [join]

theorem LoadedList.checkText_eq_join (list : LoadedList) :
    list.checkText = CheckLine.join list.checkLines := by
  have hcolumns : ["Lines", "Rules", "Comments", "Blank", "Element hiding", "Errors"].map
      CheckLine.column =
      ["  Lines:          ", "  Rules:          ", "  Comments:       ",
        "  Blank:          ", "  Element hiding: ", "  Errors:         "] := by
    decide
  simp only [List.map_cons, List.map_nil, List.cons.injEq, and_true] at hcolumns
  obtain ⟨hlines, hrules, hcomments, hblank, hhiding, herrors⟩ := hcolumns
  rw [checkText, checkLines, CheckLine.join, ← String.toList_inj]
  simp [CheckLine.text, hlines, hrules, hcomments, hblank, hhiding, herrors, List.flatMap_map,
    Function.comp_def]

/-- A check is printed as the lines of its lists and the totals. -/
theorem CheckReport.text_eq_join (report : CheckReport) :
    report.text = CheckLine.join (report.lists.flatMap LoadedList.checkLines ++
      [.total report.set.size report.failed]) := by
  have hlists : String.join (report.lists.map LoadedList.checkText) =
      CheckLine.join (report.lists.flatMap LoadedList.checkLines) := by
    simp only [LoadedList.checkText_eq_join, CheckLine.join, ← String.toList_inj,
      String.toList_join, List.flatMap_map, List.map_flatMap, List.flatMap_assoc]
  rw [text, CheckLine.join_append, hlists]
  simp [CheckLine.join, CheckLine.text, ← String.toList_inj]

end UrlFilter
