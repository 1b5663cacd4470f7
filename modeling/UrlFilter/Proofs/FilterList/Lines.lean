/-
What the lines of a list are.

A line of a text ends at a line feed, or at a carriage return and a line feed, and the last one
need not end.  Trimming takes white space away from both ends of a line, and all of it.  This
says what the trimmed lines of a list are without telling how they are found, and there is one
answer to it.
-/
import UrlFilter.FilterList
import UrlFilter.Proofs.Text.Lines
import UrlFilter.Proofs.Text.Runs
import Mathlib.Data.List.Forall2

namespace UrlFilter

/-- A text consists of some lines and their ends. -/
inductive HasLines : List Char → List (List Char) → Prop
  | nil : HasLines [] []
  /-- A last line without an end. -/
  | unended {line : List Char} : line ≠ [] → '\n' ∉ line → HasLines line [line]
  /-- A line that ends at a line feed alone. -/
  | newline {line rest : List Char} {lines : List (List Char)} : '\n' ∉ line →
      line.getLast? ≠ some '\r' → HasLines rest lines →
      HasLines (line ++ '\n' :: rest) (line :: lines)
  /-- A line that ends at a carriage return and a line feed. -/
  | returnNewline {line rest : List Char} {lines : List (List Char)} : '\n' ∉ line →
      HasLines rest lines → HasLines (line ++ '\r' :: '\n' :: rest) (line :: lines)

/-- Only white space was taken away from a text, at both ends, and there is none left. -/
structure Trims (text trimmed : List Char) : Prop where
  exists_blanks : ∃ front behind, text = front ++ trimmed ++ behind ∧
    (∀ c ∈ front, isBlank c = true) ∧ ∀ c ∈ behind, isBlank c = true
  head_not_blank : ∀ c, trimmed.head? = some c → isBlank c = false
  last_not_blank : ∀ c, trimmed.getLast? = some c → isBlank c = false

/-- Some texts are the trimmed lines of a text. -/
def TrimmedLines (text : String) (trimmed : List String) : Prop :=
  ∃ lines, HasLines text.toList lines ∧
    List.Forall₂ (fun line text => Trims line text.toList) lines trimmed

/-- A text without a line feed is a line, unless it is empty. -/
theorem lines_of_not_mem {text : List Char} (h : '\n' ∉ text) :
    lines text = if text = [] then [] else [text] := by
  rw [lines, List.splitOn_eq_singleton h]
  rfl

theorem HasLines.eq_lines {text : List Char} {found : List (List Char)} (h : HasLines text found) :
    found = lines text := by
  induction h with
  | nil => rfl
  | unended hne hline => rw [lines_of_not_mem hline, if_neg hne]
  | newline hline hreturn _ ih =>
      rw [lines_cons hline, dropCarriageReturn, if_neg hreturn, ih]
  | @returnNewline line rest _ hline _ ih =>
      have hend : line ++ '\r' :: '\n' :: rest = (line ++ ['\r']) ++ '\n' :: rest := by simp
      rw [hend, lines_cons (by simp [hline]), dropCarriageReturn, if_pos (by simp),
        List.dropLast_concat, ih]

theorem hasLines_lines (text : List Char) : HasLines text (lines text) := by
  -- The induction goes from line feed to line feed.
  induction hlength : text.length using Nat.strong_induction_on generalizing text with
  | _ length ih =>
      by_cases hnewline : '\n' ∈ text
      · obtain ⟨line, rest, rfl, hline⟩ := List.eq_append_cons_of_mem hnewline
        have hrest : rest.length < length := by
          rw [← hlength, List.length_append, List.length_cons]
          omega
        have hlines := ih rest.length hrest rest rfl
        rw [lines_cons hline, dropCarriageReturn]
        split
        · rename_i hreturn
          obtain ⟨front, rfl⟩ := List.getLast?_eq_some_iff.1 hreturn
          rw [List.dropLast_concat, List.append_assoc]
          exact .returnNewline (fun hmem => hline (List.mem_append_left _ hmem)) hlines
        · rename_i hreturn
          exact .newline hline hreturn hlines
      · rw [lines_of_not_mem hnewline]
        split
        · rename_i hempty
          rw [hempty]
          exact .nil
        · rename_i hne
          exact .unended hne hnewline

theorem hasLines_iff {text : List Char} {found : List (List Char)} :
    HasLines text found ↔ found = lines text := by
  constructor
  · exact HasLines.eq_lines
  · rintro rfl
    exact hasLines_lines text

theorem trims_trim (text : List Char) : Trims text (trim text) where
  exists_blanks := by
    have hends : trim text ++ (text.dropWhile isBlank).rtakeWhile isBlank =
        text.dropWhile isBlank := List.rdropWhile_append_rtakeWhile
    refine ⟨text.takeWhile isBlank, (text.dropWhile isBlank).rtakeWhile isBlank, ?_, ?_, ?_⟩
    · rw [List.append_assoc, hends, List.takeWhile_append_dropWhile]
    · exact fun c hc => List.mem_takeWhile_imp hc
    · exact fun c hc => List.mem_rtakeWhile_imp hc
  head_not_blank := by
    intro c hc
    have hfirst := List.head?_dropWhile_not isBlank (trim text)
    rw [dropWhile_trim, hc] at hfirst
    simpa using hfirst
  last_not_blank := by
    intro c hc
    obtain ⟨hne, hlast⟩ := List.mem_getLast?_eq_getLast hc
    have hself : (trim text).rdropWhile isBlank = trim text := List.rdropWhile_idempotent _ _
    rw [hlast]
    simpa using List.rdropWhile_eq_self_iff.1 hself hne

theorem Trims.eq_trim {text trimmed : List Char} (h : Trims text trimmed) :
    trimmed = trim text := by
  obtain ⟨front, behind, rfl, hfront, hbehind⟩ := h.exists_blanks
  rw [trim, List.append_assoc]
  cases htrimmed : trimmed with
  | nil =>
      have hall : (front ++ ([] ++ behind)).dropWhile isBlank = [] :=
        List.dropWhile_eq_nil_iff.2 (by simpa [or_imp, forall_and] using ⟨hfront, hbehind⟩)
      rw [hall]
      rfl
  | cons c rest =>
      have hhead := h.head_not_blank
      have hlast := h.last_not_blank
      rw [htrimmed] at hhead hlast
      rw [dropWhile_append_of_head? hfront (by simpa using hhead), List.reverse_append,
        dropWhile_append_of_head? (by simpa using hbehind) (by rwa [List.head?_reverse]),
        List.reverse_reverse]

theorem trims_iff {text trimmed : List Char} : Trims text trimmed ↔ trimmed = trim text := by
  constructor
  · exact Trims.eq_trim
  · rintro rfl
    exact trims_trim text

theorem forall₂_trims_iff {lines : List (List Char)} {trimmed : List String} :
    List.Forall₂ (fun line text => Trims line text.toList) lines trimmed ↔
      trimmed = lines.map fun line => String.ofList (trim line) := by
  have htrims : ∀ (line : List Char) (text : String),
      Trims line text.toList ↔ String.ofList (trim line) = text := by
    intro line text
    rw [trims_iff, ← String.toList_inj, String.toList_ofList]
    exact eq_comm
  simp only [htrims]
  rw [← List.forall₂_map_left_iff, List.forall₂_eq_eq_eq]
  exact eq_comm

/-- A list has its trimmed lines, and no others. -/
theorem trimmedLines_iff {text : String} {trimmed : List String} :
    TrimmedLines text trimmed ↔ trimmed = FilterList.lines text := by
  simp only [TrimmedLines, hasLines_iff, forall₂_trims_iff, exists_eq_left]
  rfl

end UrlFilter
