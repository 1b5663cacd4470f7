/-
The counts of a listing.

A listing is written rule by rule, and its counts come together on the way.  They are those of
counting alone, and they stand in the last lines of the listing.  The counts of lists add up, so
whatever holds of the counts of one rule and is kept by adding holds of the counts of all: every
compiled rule accepts once, steps over at most one scheme, and has as many instructions as its
header says.
-/
import UrlFilter.Proofs.Listing.Lines
import UrlFilter.Proofs.Rule.Shape
import UrlFilter.Proofs.Text.Lines

namespace UrlFilter

/-- A line of a listing, by what it is written for. -/
inductive ListingLine
  /-- The text of a rule, between quotes. -/
  | title (text : String)
  /-- An instruction. -/
  | instruction (instruction : Instruction)
  /-- The end of a rule. -/
  | gap
  /-- A count, under its name. -/
  | count (name : String) (number : Nat)
  deriving DecidableEq, Repr

namespace ListingLine

/-- What is written on a line. -/
def chars : ListingLine → List Char
  | title text => '\x22' :: text.toList ++ ['\x22']
  | instruction shown => shown.text.toList
  | gap => []
  | count name number => ("#" ++ name ++ " = " ++ toString number).toList

/-- Does the line show an instruction? -/
def isInstruction : ListingLine → Bool
  | instruction _ => true
  | _ => false

end ListingLine

/-- The lines that are written for a rule. -/
def Rule.written (rule : Rule) : List ListingLine :=
  .title rule.text :: (rule.program.instructions.map .instruction ++ [.gap])

/-- The lines that are written for counts. -/
def ProgramStats.written (stats : ProgramStats) : List ListingLine :=
  [.count "rule" stats.rules, .count "instruction" stats.instructions, .count "char" stats.char,
    .count "skip_to" stats.skipTo, .count "skip_scheme" stats.skipScheme,
    .count "match" stats.accept]

/-- The lines that are written for a list of rules. -/
def written (rules : List Rule) : List ListingLine :=
  rules.flatMap Rule.written ++ (ProgramStats.ofRules rules).written

theorem Rule.map_chars_written (rule : Rule) :
    rule.written.map ListingLine.chars = rule.lines := by
  simp only [Rule.written, lines, List.map_cons, List.map_append, List.map_map,
    List.map_nil, ListingLine.chars]
  rfl

theorem ProgramStats.map_chars_written (stats : ProgramStats) :
    stats.written.map ListingLine.chars = stats.lines := by
  simp [ProgramStats.written, lines, ListingLine.chars]

/-- A listing consists of the lines that are written for its rules. -/
theorem toList_text_writeListing (rules : List Rule) :
    (writeListing rules).text.toList = textOfLines ((written rules).map ListingLine.chars) := by
  have hrules : (rules.flatMap Rule.written).map ListingLine.chars =
      rules.flatMap Rule.lines := by
    rw [List.map_flatMap]
    exact List.flatMap_congr fun rule _ => rule.map_chars_written
  rw [written, List.map_append, hrules, ProgramStats.map_chars_written]
  exact toList_listing rules

theorem Rule.countP_written (rule : Rule) :
    rule.written.countP ListingLine.isInstruction = rule.program.instructions.length := by
  have hall : (rule.program.instructions.map ListingLine.instruction).countP
      ListingLine.isInstruction = rule.program.instructions.length := by
    rw [List.countP_map, ← List.countP_true]
    rfl
  rw [Rule.written, List.countP_cons_of_neg Bool.false_ne_true, List.countP_append, hall]
  rfl

section LastLines

/-- What is written on lines is read as lines in front of those of whatever follows. -/
theorem exists_lines_textOfLines_append (front : List (List Char)) (rest : List Char) :
    ∃ before, lines (textOfLines front ++ rest) = before ++ lines rest := by
  rcases front.eq_nil_or_concat with rfl | ⟨others, last, rfl⟩
  · exact ⟨[], rfl⟩
  · refine ⟨((textOfLines others ++ last).splitOn '\n').map dropCarriageReturn, ?_⟩
    rw [← lines_append_cons, List.concat_eq_append, textOfLines_append, textOfLines_cons]
    simp [textOfLines]

/-- Lines without line endings in them are read as they were written. -/
theorem lines_textOfLines {written : List (List Char)} (hnewline : ∀ line ∈ written, '\n' ∉ line)
    (hreturn : ∀ line ∈ written, '\r' ∉ line) : lines (textOfLines written) = written := by
  induction written with
  | nil => decide
  | cons line rest ih =>
      have hlast : line.getLast? ≠ some '\r' := fun hlast =>
        hreturn line List.mem_cons_self (List.mem_of_getLast? hlast)
      rw [textOfLines_cons, lines_cons (hnewline line List.mem_cons_self), dropCarriageReturn,
        if_neg hlast, ih (fun other hother => hnewline other (List.mem_cons_of_mem line hother))
          (fun other hother => hreturn other (List.mem_cons_of_mem line hother))]

theorem ProgramStats.lines_toList_text (stats : ProgramStats) :
    UrlFilter.lines (textOfLines stats.lines) = stats.lines := by
  refine lines_textOfLines stats.newline_not_mem_lines ?_
  simp [lines, not_mem_toDigits (show '\r'.isDigit = false by decide)]

/-- The last six lines of a listing are those of its counts, whatever line feeds the texts of
rules bring in. -/
theorem rtake_lines_listing (rules : List Rule) :
    (lines (writeListing rules).text.toList).rtake 6 = (writeListing rules).stats.lines := by
  have htext : (writeListing rules).text.toList =
      textOfLines (rules.flatMap Rule.lines) ++
        textOfLines (ProgramStats.ofRules rules).lines := by
    rw [← textOfLines_append]
    exact toList_listing rules
  obtain ⟨before, hbefore⟩ := exists_lines_textOfLines_append (rules.flatMap Rule.lines)
    (textOfLines (ProgramStats.ofRules rules).lines)
  rw [htext, hbefore, ProgramStats.lines_toList_text, stats_writeListing]
  have hlength : (ProgramStats.ofRules rules).lines.length = 6 := rfl
  simp [List.rtake, hlength]

end LastLines

namespace ProgramStats

section Add

variable (first second third : ProgramStats)

theorem zero_add : zero.add first = first := by
  simp [add, zero]

theorem add_assoc : (first.add second).add third = first.add (second.add third) := by
  simp [add, Nat.add_assoc]

end Add

theorem foldl_add (stats : ProgramStats) (rules : List Rule) :
    rules.foldl (fun stats rule => stats.add (ofRule rule)) stats = stats.add (ofRules rules) := by
  induction rules generalizing stats with
  | nil => rfl
  | cons rule rules ih =>
      rw [ofRules, List.foldl_cons, List.foldl_cons, ih, ih, zero_add, add_assoc]

theorem ofRules_cons (rule : Rule) (rules : List Rule) :
    ofRules (rule :: rules) = (ofRule rule).add (ofRules rules) := by
  rw [ofRules, List.foldl_cons, foldl_add, zero_add]

/-- The counts of two lists add up. -/
theorem ofRules_append (left right : List Rule) :
    ofRules (left ++ right) = (ofRules left).add (ofRules right) := by
  rw [ofRules, List.foldl_append, foldl_add]
  rfl

/-- How the counts of so many compiled rules are related. -/
structure Agree (number : Nat) (stats : ProgramStats) : Prop where
  rules_eq : stats.rules = number
  accept_eq : stats.accept = number
  instructions_eq : stats.instructions =
    stats.char + stats.skipTo + stats.skipScheme + stats.accept
  skipScheme_le : stats.skipScheme ≤ stats.rules

theorem agree_zero : zero.Agree 0 := ⟨rfl, rfl, rfl, Nat.le_refl 0⟩

theorem Agree.add {left right : ProgramStats} {first second : Nat} (hleft : left.Agree first)
    (hright : right.Agree second) : (left.add right).Agree (first + second) where
  rules_eq := congrArg₂ (· + ·) hleft.rules_eq hright.rules_eq
  accept_eq := congrArg₂ (· + ·) hleft.accept_eq hright.accept_eq
  instructions_eq := by
    have hleftSum := hleft.instructions_eq
    have hrightSum := hright.instructions_eq
    simp only [ProgramStats.add]
    omega
  skipScheme_le := Nat.add_le_add hleft.skipScheme_le hright.skipScheme_le

end ProgramStats

/-- Every instruction has one of the four opcodes. -/
theorem length_eq_add_count (opcodes : List Opcode) :
    opcodes.length = opcodes.count .char + opcodes.count .skipTo + opcodes.count .skipScheme +
      opcodes.count .accept := by
  induction opcodes with
  | nil => rfl
  | cons opcode opcodes ih =>
      rw [List.length_cons, ih]
      cases opcode <;> simp <;> omega

namespace Rule.WellFormed

variable {rule : Rule}

theorem count_accept (h : rule.WellFormed) :
    (rule.program.instructions.map Instruction.opcode).count .accept = 1 := by
  obtain ⟨front, hinstructions, hfront⟩ := h.accept_last
  have hnone : Opcode.accept ∉ front.map Instruction.opcode := by
    intro hmem
    obtain ⟨instruction, hinstruction, hopcode⟩ := List.mem_map.1 hmem
    exact hfront instruction hinstruction hopcode
  rw [hinstructions, List.map_append, List.count_append, List.count_eq_zero_of_not_mem hnone]
  rfl

/-- A scheme is stepped over at the second instruction only. -/
theorem count_skipScheme_le (h : rule.WellFormed) :
    (rule.program.instructions.map Instruction.opcode).count .skipScheme ≤ 1 := by
  have hplace := h.scheme_behind_head
  match hinstructions : rule.program.instructions with
  | [] => exact Nat.zero_le 1
  | [_] => exact List.count_le_length
  | first :: second :: rest =>
      rw [hinstructions] at hplace
      have hfirst : first.opcode ≠ .skipScheme := fun hopcode =>
        absurd (hplace 0 first rfl hopcode).1 (by decide)
      have hrest : Opcode.skipScheme ∉ rest.map Instruction.opcode := by
        intro hmem
        obtain ⟨instruction, hinstruction, hopcode⟩ := List.mem_map.1 hmem
        obtain ⟨index, hindex⟩ := List.mem_iff_getElem?.1 hinstruction
        have := (hplace (index + 2) instruction hindex hopcode).1
        omega
      rw [List.map_cons, List.map_cons, List.count_cons_of_ne hfirst, List.count_cons,
        List.count_eq_zero_of_not_mem hrest]
      split <;> decide

theorem agree_ofRule (h : rule.WellFormed) : (ProgramStats.ofRule rule).Agree 1 where
  rules_eq := rfl
  accept_eq := h.count_accept
  instructions_eq := by
    have hlength := length_eq_add_count (rule.program.instructions.map Instruction.opcode)
    rw [List.length_map] at hlength
    exact h.count_eq.trans hlength
  skipScheme_le := h.count_skipScheme_le

end Rule.WellFormed

section Compiled

variable {rules : List Rule} (h : ∀ rule ∈ rules, rule.WellFormed)
include h

theorem agree_ofRules : (ProgramStats.ofRules rules).Agree rules.length := by
  induction rules with
  | nil => exact ProgramStats.agree_zero
  | cons rule rules ih =>
      obtain ⟨hrule, hrules⟩ := List.forall_mem_cons.1 h
      rw [ProgramStats.ofRules_cons, List.length_cons, Nat.add_comm]
      exact hrule.agree_ofRule.add (ih hrules)

/-- The headers count the lines that are written for instructions. -/
theorem instructions_ofRules_eq_countP :
    (ProgramStats.ofRules rules).instructions =
      (written rules).countP ListingLine.isInstruction := by
  have hcounts : (ProgramStats.ofRules rules).written.countP ListingLine.isInstruction = 0 := rfl
  rw [written, List.countP_append, hcounts, Nat.add_zero]
  clear hcounts
  induction rules with
  | nil => rfl
  | cons rule rules ih =>
      obtain ⟨hrule, hrules⟩ := List.forall_mem_cons.1 h
      rw [ProgramStats.ofRules_cons, List.flatMap_cons, List.countP_append, rule.countP_written,
        ← ih hrules, ← hrule.count_eq]
      rfl

end Compiled

/-- What the counts of a listing have to do with its rules and its lines. -/
structure ListingDraft.CountsAgree (rules : List Rule) (draft : ListingDraft) : Prop where
  /-- The counts are those of counting without writing. -/
  stats_eq : draft.stats = ProgramStats.ofRules rules
  /-- They stand in the last six lines. -/
  last_lines : (lines draft.text.toList).rtake 6 = draft.stats.lines
  agree : draft.stats.Agree rules.length
  /-- As many instructions are counted as lines are written for them. -/
  instructions_eq : draft.text.toList = textOfLines ((written rules).map ListingLine.chars) ∧
    draft.stats.instructions = (written rules).countP ListingLine.isInstruction

/-- The counts of a listing of compiled rules agree with its rules, with its lines and with each
other, and the counts of two lists of rules add up to those of both. -/
theorem counts_agree_and_add :
    (∀ rules : List Rule, (∀ rule ∈ rules, ∃ line, compileLine line = .ok (some rule)) →
      (writeListing rules).CountsAgree rules) ∧
    ∀ left right : List Rule,
      ProgramStats.ofRules (left ++ right) =
        (ProgramStats.ofRules left).add (ProgramStats.ofRules right) := by
  refine ⟨fun rules hcompiled => ?_, ProgramStats.ofRules_append⟩
  have hwell : ∀ rule ∈ rules, rule.WellFormed := by
    intro rule hrule
    obtain ⟨line, hline⟩ := hcompiled rule hrule
    exact Filter.compile_wellFormed (Filter.compile_of_compileLine hline)
  exact {
    stats_eq := stats_writeListing rules
    last_lines := rtake_lines_listing rules
    agree := by
      rw [stats_writeListing]
      exact agree_ofRules hwell
    instructions_eq := by
      rw [stats_writeListing]
      exact ⟨toList_text_writeListing rules, instructions_ofRules_eq_countP hwell⟩ }

/-- Two compiled rules, one of them with a line feed in its text. -/
theorem counts_agree_of_two_rules :
    ∃ first second, compileLine "||a^" = .ok (some first) ∧
      compileLine "a*b|$x\nchar a" = .ok (some second) ∧
      (writeListing [first, second]).stats = ⟨2, 9, 5, 1, 1, 2⟩ ∧
      (writeListing [first, second]).CountsAgree [first, second] := by
  let first := Rule.assemble "||a^" "||a^" [Instruction.head, Instruction.skipScheme,
    ⟨.char, 0x61⟩, ⟨.char, Operand.separator⟩, Instruction.accept] Flags.empty [] []
  let second := Rule.assemble "a*b|$x\nchar a" "a*b|" [⟨.char, 0x61⟩, ⟨.skipTo, 0x62⟩,
    Instruction.tail, Instruction.accept] Flags.empty [] []
  have hfirst : compileLine "||a^" = .ok (some first) := by decide +kernel
  have hsecond : compileLine "a*b|$x\nchar a" = .ok (some second) := by decide +kernel
  refine ⟨first, second, hfirst, hsecond, ?_, counts_agree_and_add.1 [first, second] ?_⟩
  · rw [stats_writeListing]
    decide
  · intro rule hrule
    rcases List.mem_pair.1 hrule with rfl | rfl
    · exact ⟨_, hfirst⟩
    · exact ⟨_, hsecond⟩

end UrlFilter
