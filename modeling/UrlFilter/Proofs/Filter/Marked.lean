/-
The mark in front of a line.

The mark of an exception is passed over when a pattern is read, and no edge that normalizing
removes has a character of it.  So in front of a line that begins with none of these edges the
mark does nothing but make the rule an exception.  The program stays as it is, and a byte at
fault stands further on by the length of the mark.
-/
import UrlFilter.Proofs.Filter.Recorded
import UrlFilter.Proofs.Pattern.Decode
import UrlFilter.Proofs.Pattern.Front

namespace UrlFilter

/-- The fault with its place moved on. -/
def PatternFault.shift (count : Nat) : PatternFault → PatternFault
  | invalidByte offset byte => invalidByte (offset + count) byte
  | tooLong => tooLong

/-- A line that is neither blank nor a comment nor an exception, and begins with none of the
edges that normalizing removes. -/
structure Line.IsMarkable (line : String) : Prop where
  ne_blank : line ≠ ""
  not_comment : ¬ ['!'] <+: line.toList
  not_exception : ¬ ['@', '@'] <+: line.toList
  not_star : ¬ ['*'] <+: line.toList
  not_start_star : ¬ ['|', '*'] <+: line.toList

instance (line : String) : Decidable (Line.IsMarkable line) :=
  decidable_of_iff
    (line ≠ "" ∧ ¬ ['!'] <+: line.toList ∧ ¬ ['@', '@'] <+: line.toList ∧
      ¬ ['*'] <+: line.toList ∧ ¬ ['|', '*'] <+: line.toList)
    ⟨fun ⟨hne, hcomment, hexception, hstar, hstart⟩ =>
      ⟨hne, hcomment, hexception, hstar, hstart⟩,
     fun h => ⟨h.ne_blank, h.not_comment, h.not_exception, h.not_star, h.not_start_star⟩⟩

/-- A rule that differs from a plain one in the mark in front of its pattern and the flag of an
exception, and besides them at most in the text that it is known by. -/
structure Rule.IsMarked (marked plain : Rule) : Prop where
  instructions_eq : marked.program.instructions = plain.program.instructions
  included_eq : marked.included = plain.included
  excluded_eq : marked.excluded = plain.excluded
  plain_not_allow : plain.flags.contains .allow = false
  flags_eq : marked.flags = plain.flags.insert .allow
  pattern_eq : marked.pattern = "@@" ++ plain.pattern
  accepts_eq : ∀ mode query, marked.accepts mode query = plain.accepts mode query

/-- Two answers to compiling a line, the first with the mark in front: both fail by the same
fault, with its place moved on by the mark, or both have rules, and the first is the second one
marked. -/
inductive CompileMarked :
    Except CompileError (Option Rule) → Except CompileError (Option Rule) → Prop
  | failed {marked plain : CompileError} : marked.fault = plain.fault.shift 2 →
      marked.pattern = "@@" ++ plain.pattern → CompileMarked (.error marked) (.error plain)
  | compiled {marked plain : Rule} : marked.IsMarked plain →
      CompileMarked (.ok (some marked)) (.ok (some plain))

namespace Pattern

namespace Lead

section Opens

variable {lead : Lead} {text rest : List UInt8} (hopens : lead.Opens text rest)
  (hmark : ¬ exceptionMark <+: text)
include hopens hmark

/-- A lead has a mark only if its text begins with one. -/
theorem Opens.markBytes_eq_nil : lead.markBytes = [] := by
  rw [markBytes]
  split
  · rename_i htaken
    rw [hopens.text_eq, Lead.bytes, markBytes, if_pos htaken, List.append_assoc,
      List.append_assoc] at hmark
    exact absurd (List.prefix_append _ _) hmark
  · rfl

theorem Opens.mark_front :
    Opens { lead with marked := true } (exceptionMark ++ text) rest := by
  apply Opens.mark
  rwa [hopens.markBytes_eq_nil hmark, List.nil_append]

theorem Opens.bytes_mark :
    Lead.bytes { lead with marked := true } = exceptionMark ++ lead.bytes := by
  rw [Lead.bytes, Lead.bytes, hopens.markBytes_eq_nil hmark, List.nil_append, markBytes,
    if_pos rfl, List.append_assoc]

end Opens

end Lead

/-- Behind a mark a text without one is read as it is read alone, with faults moved on. -/
theorem read_mark_append {text : List UInt8} (hmark : ¬ exceptionMark <+: text) :
    read (exceptionMark ++ text) = (read text).mapError (PatternFault.shift 2) := by
  obtain ⟨answer, hanswer⟩ := exists_answer text
  rw [hanswer.read_eq]
  apply Answers.read_eq
  cases hanswer with
  | complete hopens hsize =>
      have hcomplete := Answers.complete (hopens.mark_front hmark) hsize
      exact hcomplete
  | @stuck lead rest delay hopens hstuck hroom =>
      have hplace := Answers.stuck (hopens.mark_front hmark) hstuck hroom
      have hoffset : (exceptionMark ++ lead.bytes).length + delay =
          lead.bytes.length + delay + 2 := by
        rw [List.length_append, Nat.add_assoc, Nat.add_comm]
        rfl
      rw [hopens.bytes_mark hmark, hoffset] at hplace
      exact hplace
  | full hopens hrest hfull => exact .full (hopens.mark_front hmark) hrest hfull

theorem compile_mark_append {text : String} (hmark : ¬ ['@', '@'] <+: text.toList)
    (flags : Flags) :
    compile ("@@" ++ text) flags = (compile text flags).mapError (PatternFault.shift 2) := by
  have hbytes : utf8 ("@@" ++ text) = exceptionMark ++ utf8 text := utf8_append "@@" text
  rw [compile, compile, hbytes, read_mark_append (mt exceptionMark_prefix_utf8_iff.1 hmark)]
  cases read (utf8 text) <;> rfl

end Pattern

theorem toList_mark_append (line : String) :
    ("@@" ++ line).toList = ['@', '@'] ++ line.toList :=
  String.toList_append

theorem Line.marksHiding_mark_append (characters : List Char) :
    marksHiding (['@', '@'] ++ characters) = marksHiding characters := by
  rw [marksHiding, marksHiding, Bool.eq_iff_iff]
  simp [occurs_iff, List.infix_cons_iff, List.cons_prefix_cons]

/-- With the mark in front a line has the same options. -/
theorem optionTexts_mark_append (line : String) :
    optionTexts ("@@" ++ line) = optionTexts line := by
  rw [optionTexts, optionTexts, toList_mark_append, List.dropWhile_append_of_pos (by simp)]

theorem takeWhile_mark_append (line : String) :
    ("@@" ++ line).toList.takeWhile (· != '$') =
      ['@', '@'] ++ line.toList.takeWhile (· != '$') := by
  rw [toList_mark_append, List.takeWhile_append_of_pos (by simp)]

namespace Filter

theorem options_mark_append (line : String) :
    (ofText ("@@" ++ line)).options = (ofText line).options := by
  rw [options_ofText, options_ofText, optionTexts_mark_append]

theorem clauses_mark_append (line : String) :
    (ofText ("@@" ++ line)).clauses = (ofText line).clauses := by
  rw [clauses, clauses, options_mark_append]

section Markable

variable {line : String} (hline : Line.IsMarkable line)
include hline

theorem not_isException_of_isMarkable : (ofText line).isException = false := by
  rw [Bool.eq_false_iff, ne_eq, isException_ofText_iff]
  exact fun hmark => hline.not_exception (hmark.trans (List.takeWhile_prefix _))

/-- The mark adds the flag of an exception. -/
theorem flags_mark_append :
    (ofText ("@@" ++ line)).flags = (ofText line).flags.insert .allow := by
  have hexception : (ofText ("@@" ++ line)).isException = true := by
    rw [isException_ofText_iff, takeWhile_mark_append]
    exact List.prefix_append _ _
  rw [flags, flags, options_mark_append, clauses_mark_append, hexception,
    not_isException_of_isMarkable hline]
  cases (ofText line).clauses.isEmpty with
  | true => rfl
  | false => exact Flags.insert_comm _ .allow .domain

/-- The mark stays in front of the pattern. -/
theorem pattern_mark_append :
    (ofText ("@@" ++ line)).pattern = "@@" ++ (ofText line).pattern := by
  have hbegins := List.takeWhile_prefix (l := line.toList) (· != '$')
  rw [← String.toList_inj, toList_mark_append, toList_pattern_ofText, toList_pattern_ofText,
    takeWhile_mark_append]
  apply Pattern.normalizeChars_append (by decide) (by decide) (by decide) (by decide)
  · exact fun hstar => hline.not_star (hstar.trans hbegins)
  · exact fun hstart => hline.not_start_star (hstart.trans hbegins)

/-- The pattern of the line alone begins with no mark. -/
theorem not_mark_prefix_pattern : ¬ ['@', '@'] <+: (ofText line).pattern.toList := by
  have hbegins := List.takeWhile_prefix (l := line.toList) (· != '$')
  rw [toList_pattern_ofText, Pattern.mark_prefix_normalizeChars_iff, not_or]
  constructor
  · exact fun hmark => hline.not_exception (hmark.trans hbegins)
  · apply Pattern.not_hidesMark_of_no_edge
    · exact fun hstar => hline.not_star (hstar.trans hbegins)
    · exact fun hstart => hline.not_start_star (hstart.trans hbegins)

theorem compileMarked :
    CompileMarked ((ofText ("@@" ++ line)).compile.map some) ((ofText line).compile.map some) := by
  have hcase : ((ofText line).flags.insert .allow).contains .matchCase =
      (ofText line).flags.contains .matchCase := by
    simp
  unfold compile
  rw [pattern_mark_append hline, flags_mark_append hline, included, excluded,
    clauses_mark_append, ← included, ← excluded, Pattern.compile_congr _ hcase,
    Pattern.compile_mark_append (not_mark_prefix_pattern hline)]
  cases Pattern.compile (ofText line).pattern (ofText line).flags with
  | error fault => exact .failed rfl rfl
  | ok instructions =>
      refine .compiled ?_
      exact {
        instructions_eq := rfl
        included_eq := rfl
        excluded_eq := rfl
        plain_not_allow := by
          rw [Rule.contains_assemble (by decide), Bool.eq_false_iff, ne_eq,
            contains_allow_flags_iff, ← isException_ofText_iff,
            not_isException_of_isMarkable hline]
          exact Bool.false_ne_true
        flags_eq := Flags.assign_insert_comm (by decide) _ _
        pattern_eq := rfl
        accepts_eq := Rule.accepts_assemble_eq _ _ _ _ _ _ _ _ _ }

end Markable

end Filter

/-- The mark of an exception in front of a line is nothing but that.  A line that is not blank
and begins with none of a comment, a mark, a wildcard, and a start anchor with a wildcard, hides
elements with the mark in front exactly if it does so alone.  Otherwise both lines are filters,
and either both fail by the same fault, whose place the mark moves on by two, or both have rules:
with the same instructions and domain tokens, the marked one with the mark in front of its
pattern and the flag of an exception besides the flags of the other, and accepting the same
queries. -/
theorem compileMarked_of_isMarkable {line : String} (hline : Line.IsMarkable line) :
    (Line.ofText ("@@" ++ line) = .elementHiding ∧ Line.ofText line = .elementHiding) ∨
      (Line.ofText ("@@" ++ line) = .filter (Filter.ofText ("@@" ++ line)) ∧
        Line.ofText line = .filter (Filter.ofText line) ∧
        CompileMarked (compileLine ("@@" ++ line)) (compileLine line)) := by
  have hplain := Line.ofText_eq_of_not_comment hline.ne_blank hline.not_comment
  have hmarked : Line.ofText ("@@" ++ line) = if Line.marksHiding line.toList then .elementHiding
      else .filter (Filter.ofText ("@@" ++ line)) := by
    rw [← Line.marksHiding_mark_append, ← toList_mark_append]
    apply Line.ofText_eq_of_not_comment
    · rw [ne_eq, ← String.toList_eq_nil_iff, toList_mark_append]
      exact List.cons_ne_nil _ _
    · rw [toList_mark_append]
      exact fun hcomment => absurd (List.cons_prefix_cons.1 hcomment).1 (by decide)
  cases hhiding : Line.marksHiding line.toList with
  | true =>
      rw [hhiding] at hplain hmarked
      exact Or.inl ⟨hmarked, hplain⟩
  | false =>
      rw [hhiding] at hplain hmarked
      refine Or.inr ⟨hmarked, hplain, ?_⟩
      rw [compileLine_eq_of_filter ⟨_, hmarked⟩, compileLine_eq_of_filter ⟨_, hplain⟩]
      exact Filter.compileMarked hline

/-- A line with a mark behind a wildcard, an edge at its end and an option, and a line that fails
at a wildcard in front of a character beyond ASCII. -/
theorem compileMarked_of_two_lines :
    let instructions : List Instruction :=
      [⟨.char, 0x40⟩, ⟨.skipTo, 0x40⟩, ⟨.char, 0x40⟩, ⟨.char, 0x61⟩,
        ⟨.char, Operand.separator⟩, Instruction.accept]
    let flags := Flags.empty.insert (.asserted .script)
    let marked := Rule.assemble "@@@*@@a^|$script" "@@@*@@a^" instructions
      (flags.insert .allow) [] []
    let plain := Rule.assemble "@*@@a^|$script" "@*@@a^" instructions flags [] []
    let markedError : CompileError := ⟨"@@|a*é", "@@|a*é", .invalidByte 5 0xc3⟩
    let plainError : CompileError := ⟨"|a*é", "|a*é", .invalidByte 3 0xc3⟩
    (Line.IsMarkable "@*@@a^|$script" ∧
      compileLine "@@@*@@a^|$script" = .ok (some marked) ∧
      compileLine "@*@@a^|$script" = .ok (some plain) ∧ marked.IsMarked plain) ∧
    (Line.IsMarkable "|a*é" ∧ compileLine "@@|a*é" = .error markedError ∧
      compileLine "|a*é" = .error plainError ∧
      markedError.fault = plainError.fault.shift 2) := by
  intro instructions flags marked plain markedError plainError
  constructor
  · have hline : Line.IsMarkable "@*@@a^|$script" := by decide
    have hmarked : compileLine "@@@*@@a^|$script" = .ok (some marked) := by
      decide +kernel
    have hplain : compileLine "@*@@a^|$script" = .ok (some plain) := by decide +kernel
    have htext : "@@" ++ "@*@@a^|$script" = "@@@*@@a^|$script" := by decide
    refine ⟨hline, hmarked, hplain, ?_⟩
    rcases compileMarked_of_isMarkable hline with ⟨-, hhiding⟩ | ⟨-, -, hrules⟩
    · exact absurd hhiding (by decide +kernel)
    · rw [htext, hmarked, hplain] at hrules
      cases hrules with
      | compiled hrule => exact hrule
  · have hline : Line.IsMarkable "|a*é" := by decide
    have hmarked : compileLine "@@|a*é" = .error markedError := by decide +kernel
    have hplain : compileLine "|a*é" = .error plainError := by decide +kernel
    have htext : "@@" ++ "|a*é" = "@@|a*é" := by decide
    refine ⟨hline, hmarked, hplain, ?_⟩
    rcases compileMarked_of_isMarkable hline with ⟨-, hhiding⟩ | ⟨-, -, herrors⟩
    · exact absurd hhiding (by decide +kernel)
    · rw [htext, hmarked, hplain] at herrors
      cases herrors with
      | failed hfault _ => exact hfault

end UrlFilter
