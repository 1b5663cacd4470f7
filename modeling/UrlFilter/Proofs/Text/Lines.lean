/-
Lines and trimming.

A line ending is white space, so once lines are trimmed nothing is left of the two kinds of
line endings.  A text cut at a line feed then falls into the lines of its two parts, and
trimmed lines that are joined by line feeds come back as they are.
-/
import UrlFilter.Text.Blank
import UrlFilter.Text.Lines
import Mathlib.Data.List.DropRight

namespace UrlFilter

theorem trim_isInfix (text : List Char) : trim text <:+: text := by
  have hback : trim text <+: text.dropWhile isBlank :=
    List.rdropWhile_prefix isBlank (text.dropWhile isBlank)
  exact hback.isInfix.trans (List.dropWhile_suffix isBlank).isInfix

/-- A trimmed text does not begin with white space. -/
theorem dropWhile_trim (text : List Char) : (trim text).dropWhile isBlank = trim text := by
  cases htrim : trim text with
  | nil => rfl
  | cons c rest =>
      have hprefix : trim text <+: text.dropWhile isBlank :=
        List.rdropWhile_prefix isBlank (text.dropWhile isBlank)
      obtain ⟨behind, hbehind⟩ := hprefix
      have hfirst := List.head?_dropWhile_not isBlank text
      rw [← hbehind, htrim] at hfirst
      have hc : isBlank c = false := by simpa using hfirst
      rw [List.dropWhile_cons_of_neg (by simp [hc])]

theorem trim_trim (text : List Char) : trim (trim text) = trim text := by
  change ((trim text).dropWhile isBlank).rdropWhile isBlank = _
  rw [dropWhile_trim]
  exact List.rdropWhile_idempotent isBlank (text.dropWhile isBlank)

/-- White space at the end makes no difference to a trimmed text. -/
theorem trim_concat (text : List Char) {c : Char} (hc : isBlank c = true) :
    trim (text ++ [c]) = trim text := by
  change ((text ++ [c]).dropWhile isBlank).rdropWhile isBlank =
    (text.dropWhile isBlank).rdropWhile isBlank
  rw [List.dropWhile_append]
  split
  · rename_i hempty
    rw [List.isEmpty_iff.1 hempty, List.dropWhile_cons_of_pos hc]
    rfl
  · exact List.rdropWhile_concat_pos isBlank _ c hc

theorem trim_dropCarriageReturn (line : List Char) :
    trim (dropCarriageReturn line) = trim line := by
  rw [dropCarriageReturn]
  split
  · rename_i hlast
    obtain ⟨front, rfl⟩ := List.getLast?_eq_some_iff.1 hlast
    rw [List.dropLast_concat, trim_concat front (by decide)]
  · rfl

theorem dropCarriageReturn_subset (line : List Char) : dropCarriageReturn line ⊆ line := by
  rw [dropCarriageReturn]
  split
  · exact List.dropLast_subset line
  · exact List.Subset.refl line

/-- What a text is cut at stands in none of its pieces. -/
theorem not_mem_of_mem_splitOn {text piece : List Char} {c : Char}
    (h : piece ∈ text.splitOn c) : c ∉ piece := by
  induction text generalizing piece with
  | nil =>
      rw [List.splitOn_nil, List.mem_singleton] at h
      rw [h]
      exact List.not_mem_nil
  | cons first text ih =>
      rw [List.splitOn_cons_eq_if_modifyHead] at h
      split at h
      · rcases List.mem_cons.1 h with rfl | h
        · exact List.not_mem_nil
        · exact ih h
      · rename_i hfirst
        cases hpieces : text.splitOn c with
        | nil => exact absurd hpieces (List.splitOn_ne_nil c text)
        | cons next pieces =>
            rw [hpieces] at ih
            rw [hpieces, List.modifyHead_cons] at h
            rcases List.mem_cons.1 h with rfl | h
            · rw [List.mem_cons, not_or]
              exact ⟨fun heq => hfirst (by simp [heq]), ih List.mem_cons_self⟩
            · exact ih (List.mem_cons_of_mem next h)

theorem newline_not_mem_of_mem_lines {text line : List Char} (h : line ∈ lines text) :
    '\n' ∉ line := by
  rw [lines] at h
  rcases List.mem_append.1 h with h | h
  · obtain ⟨piece, hpiece, rfl⟩ := List.mem_map.1 h
    exact fun hmem => not_mem_of_mem_splitOn (List.dropLast_subset _ hpiece)
      (dropCarriageReturn_subset piece hmem)
  · split at h
    · contradiction
    · rw [List.mem_singleton.1 h]
      rw [List.getLastD_eq_getLast?, List.getLast?_eq_some_getLast (List.splitOn_ne_nil _ _)]
      exact not_mem_of_mem_splitOn (List.getLast_mem _)

/-- Every piece of a text in front of a line feed is a line, and the lines behind the line feed
follow. -/
theorem lines_append_cons (left right : List Char) :
    lines (left ++ '\n' :: right) =
      (left.splitOn '\n').map dropCarriageReturn ++ lines right := by
  have hright := List.splitOn_ne_nil '\n' right
  have hlast : (left.splitOn '\n' ++ right.splitOn '\n').getLastD [] =
      (right.splitOn '\n').getLastD [] := by
    rw [List.getLastD_eq_getLast?, List.getLastD_eq_getLast?,
      List.getLast?_append_of_ne_nil _ hright]
  rw [lines, lines, List.splitOn_append_cons_self, hlast,
    List.dropLast_append_of_ne_nil hright, List.map_append, List.append_assoc]

theorem map_trim_map_dropCarriageReturn (pieces : List (List Char)) :
    (pieces.map dropCarriageReturn).map trim = pieces.map trim := by
  rw [List.map_map]
  exact List.map_congr_left fun piece _ => trim_dropCarriageReturn piece

/-- Trimmed, the lines of a text are its pieces between line feeds, but for a last piece that
is empty. -/
theorem map_trim_lines (text : List Char) :
    (lines text).map trim =
      ((text.splitOn '\n').dropLast ++
        if (text.splitOn '\n').getLastD [] = [] then [] else
          [(text.splitOn '\n').getLastD []]).map trim := by
  rw [lines, List.map_append, List.map_append, map_trim_map_dropCarriageReturn]

/-- A text that goes on behind a line feed has the lines in front of it and the lines behind
it.  Between them is an empty line if the first part is empty or ends a line itself. -/
theorem map_trim_lines_append (left right : List Char) :
    ∃ blanks : List (List Char), (∀ line ∈ blanks, line = []) ∧
      (lines (left ++ '\n' :: right)).map trim =
        (lines left).map trim ++ blanks ++ (lines right).map trim := by
  have hleft := List.splitOn_ne_nil '\n' left
  obtain ⟨pieces, last, hpieces⟩ := (List.eq_nil_or_concat (left.splitOn '\n')).resolve_left hleft
  rw [List.concat_eq_append] at hpieces
  rw [lines_append_cons, List.map_append, map_trim_map_dropCarriageReturn, map_trim_lines left,
    hpieces]
  refine ⟨if last = [] then [[]] else [], ?_, ?_⟩
  · intro line hline
    split at hline
    · exact List.mem_singleton.1 hline
    · contradiction
  · by_cases hempty : last = []
    · simp [hempty, trim]
    · simp [hempty]

/-- A first line that ends at a line feed, and the lines behind it. -/
theorem lines_cons {line : List Char} (hline : '\n' ∉ line) (rest : List Char) :
    lines (line ++ '\n' :: rest) = dropCarriageReturn line :: lines rest := by
  rw [lines_append_cons, List.splitOn_eq_singleton hline, List.map_singleton,
    List.singleton_append]

/-- The text with a carriage return in front of every line feed. -/
def withCarriageReturns (text : List Char) : List Char :=
  text.flatMap fun c => if c = '\n' then ['\r', '\n'] else [c]

theorem withCarriageReturns_of_not_mem {text : List Char} (h : '\n' ∉ text) :
    withCarriageReturns text = text := by
  have hkept : ∀ c ∈ text, (if c = '\n' then ['\r', '\n'] else [c]) = [c] := by
    intro c hc
    apply if_neg
    rintro rfl
    exact h hc
  rw [withCarriageReturns, List.flatMap_congr hkept]
  exact List.flatMap_singleton' text

/-- Carriage returns in front of the line feeds make no difference to trimmed lines. -/
theorem map_trim_lines_withCarriageReturns (text : List Char) :
    (lines (withCarriageReturns text)).map trim = (lines text).map trim := by
  -- The induction goes from line feed to line feed.
  induction hlength : text.length using Nat.strong_induction_on generalizing text with
  | _ length ih =>
      by_cases hnewline : '\n' ∈ text
      · obtain ⟨line, rest, rfl, hline⟩ := List.eq_append_cons_of_mem hnewline
        have hreturns : withCarriageReturns (line ++ '\n' :: rest) =
            (line ++ ['\r']) ++ '\n' :: withCarriageReturns rest := by
          rw [withCarriageReturns, List.flatMap_append, ← withCarriageReturns,
            withCarriageReturns_of_not_mem hline, List.flatMap_cons, ← withCarriageReturns]
          simp
        have hrest : rest.length < length := by
          rw [← hlength, List.length_append, List.length_cons]
          omega
        rw [hreturns, lines_cons (by simp [hline]), lines_cons hline, List.map_cons,
          List.map_cons, ih rest.length hrest rest rfl, trim_dropCarriageReturn,
          trim_dropCarriageReturn, trim_concat line (by decide)]
      · rw [withCarriageReturns_of_not_mem hnewline]

/-- Lines that are joined by line feeds and read again come back trimmed. -/
theorem map_trim_lines_intercalate {texts : List (List Char)}
    (hnewline : ∀ text ∈ texts, '\n' ∉ text) (hne : ∀ text ∈ texts, text ≠ []) :
    (lines (['\n'].intercalate texts)).map trim = texts.map trim := by
  rcases List.eq_nil_or_concat texts with rfl | ⟨front, last, rfl⟩
  · rfl
  · rw [List.concat_eq_append] at *
    rw [map_trim_lines, List.splitOn_intercalate '\n' hnewline (by simp)]
    have hlast : last ≠ [] := hne last (by simp)
    simp [hlast]

end UrlFilter
