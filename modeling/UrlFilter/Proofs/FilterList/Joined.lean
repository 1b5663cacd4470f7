/-
Joined lists.

What a list is loaded to is read off its lines one by one, so texts that are joined by line
feeds give the rules and the errors of each of them, one text after the other.  At a seam
there may be one empty line more, which is blank.
-/
import UrlFilter.Proofs.FilterList.Pass
import UrlFilter.Proofs.Text.Lines

namespace UrlFilter

/-- A function that sees nothing in blank lines collects nothing at a seam of them. -/
theorem LineOutcome.filterMap_append_blanks {α : Type} {f : LineOutcome → Option α}
    (hblank : f blank = none) (left right : List LineOutcome) (count : Nat) :
    (left ++ List.replicate count blank ++ right).filterMap f =
      left.filterMap f ++ right.filterMap f := by
  rw [List.filterMap_append, List.filterMap_append, List.filterMap_replicate_of_none hblank,
    List.append_nil]

namespace FilterList

theorem lines_eq_map (text : String) :
    lines text = ((UrlFilter.lines text.toList).map trim).map String.ofList := by
  rw [lines, List.map_map]
  rfl

theorem lines_append_newline (left right : String) :
    ∃ blanks : List String, (∀ line ∈ blanks, line = "") ∧
      lines (left ++ "\n" ++ right) = lines left ++ blanks ++ lines right := by
  obtain ⟨blanks, hblanks, hlines⟩ := map_trim_lines_append left.toList right.toList
  have htext : (left ++ "\n" ++ right).toList = left.toList ++ '\n' :: right.toList := by
    simp
  refine ⟨blanks.map String.ofList, ?_, ?_⟩
  · intro line hline
    obtain ⟨blank, hblank, rfl⟩ := List.mem_map.1 hline
    rw [hblanks blank hblank, String.ofList_nil]
  · simp only [lines_eq_map, htext, hlines, List.map_append]

/-- Two joined texts have the outcomes of each of them, with blank lines at the seam. -/
theorem outcomes_append_newline (left right : String) :
    ∃ count, outcomes (left ++ "\n" ++ right) =
      outcomes left ++ List.replicate count .blank ++ outcomes right := by
  obtain ⟨blanks, hblanks, hlines⟩ := lines_append_newline left right
  have hseam : blanks.map LineOutcome.ofText = List.replicate blanks.length .blank := by
    rw [List.eq_replicate_iff, List.length_map]
    refine ⟨rfl, fun outcome houtcome => ?_⟩
    obtain ⟨line, hline, rfl⟩ := List.mem_map.1 houtcome
    rw [hblanks line hline]
    rfl
  exact ⟨blanks.length, by
    rw [outcomes, hlines, List.map_append, List.map_append, hseam, ← outcomes, ← outcomes]⟩

/-- A function of the outcomes that sees nothing in blank lines collects from two joined texts
what it collects from each of them. -/
theorem filterMap_outcomes_append_newline {α : Type} {f : LineOutcome → Option α}
    (hblank : f .blank = none) (left right : String) :
    (outcomes (left ++ "\n" ++ right)).filterMap f =
      (outcomes left).filterMap f ++ (outcomes right).filterMap f := by
  obtain ⟨count, houtcomes⟩ := outcomes_append_newline left right
  rw [houtcomes, LineOutcome.filterMap_append_blanks hblank]

/-- From any number of joined texts it collects what it collects from each of them. -/
theorem filterMap_outcomes_intercalate {α : Type} {f : LineOutcome → Option α}
    (hblank : f .blank = none) (texts : List String) :
    (outcomes ("\n".intercalate texts)).filterMap f =
      texts.flatMap fun text => (outcomes text).filterMap f := by
  induction texts with
  | nil => rfl
  | cons text texts ih =>
      cases texts with
      | nil => rw [String.intercalate_singleton, List.flatMap_singleton]
      | cons next texts =>
          rw [String.intercalate_cons_cons, filterMap_outcomes_append_newline hblank, ih]
          rfl

theorem rules_intercalate (texts : List String) :
    rules ("\n".intercalate texts) = texts.flatMap rules :=
  filterMap_outcomes_intercalate rfl texts

theorem errors_intercalate (texts : List String) :
    errors ("\n".intercalate texts) = texts.flatMap errors :=
  filterMap_outcomes_intercalate rfl texts

/-- Is the text what trimming leaves of a line? -/
structure IsLine (text : String) : Prop where
  trimmed : trim text.toList = text.toList
  no_newline : '\n' ∉ text.toList

theorem isLine_of_mem_lines {text line : String} (h : line ∈ lines text) : IsLine line := by
  obtain ⟨characters, hmem, rfl⟩ := List.mem_map.1 h
  constructor
  · rw [String.toList_ofList, trim_trim]
  · rw [String.toList_ofList]
    exact fun hnewline => newline_not_mem_of_mem_lines hmem ((trim_isInfix _).subset hnewline)

/-- Trimmed lines that are not blank are the lines of the list that they are joined to. -/
theorem lines_intercalate {texts : List String} (hlines : ∀ text ∈ texts, IsLine text)
    (hne : ∀ text ∈ texts, text ≠ "") : lines ("\n".intercalate texts) = texts := by
  have hcharacters : (UrlFilter.lines (['\n'].intercalate (texts.map String.toList))).map trim =
      (texts.map String.toList).map trim := by
    apply map_trim_lines_intercalate
    · intro characters hmem
      obtain ⟨text, htext, rfl⟩ := List.mem_map.1 hmem
      exact (hlines text htext).no_newline
    · intro characters hmem
      obtain ⟨text, htext, rfl⟩ := List.mem_map.1 hmem
      exact fun hnil => hne text htext (String.toList_eq_nil_iff.1 hnil)
  rw [lines_eq_map, String.toList_intercalate]
  change ((UrlFilter.lines (['\n'].intercalate (texts.map String.toList))).map trim).map
    String.ofList = texts
  rw [hcharacters, List.map_map, List.map_map]
  conv_rhs => rw [← List.map_id texts]
  apply List.map_congr_left
  intro text htext
  simp only [Function.comp_apply, (hlines text htext).trimmed, String.ofList_toList, id_eq]

end FilterList

end UrlFilter
