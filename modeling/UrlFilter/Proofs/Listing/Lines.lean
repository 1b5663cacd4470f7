/-
The lines of a listing.

A listing is made of lines: for every rule its text between quotes, a line for each of its
instructions and an empty line, and behind all rules the lines of the counts.  No line has a
line feed in it if no text of a rule has one, so the lines can be read off the listing.
-/
import UrlFilter.Listing
import UrlFilter.Proofs.Line.Plain

namespace UrlFilter

/-- The text of some lines, each with a line feed at its end. -/
def textOfLines (lines : List (List Char)) : List Char :=
  lines.flatMap fun line => line ++ ['\n']

theorem textOfLines_cons (line : List Char) (lines : List (List Char)) :
    textOfLines (line :: lines) = line ++ '\n' :: textOfLines lines := by
  simp only [textOfLines, List.flatMap_cons, List.append_assoc, List.singleton_append]

theorem textOfLines_append (left right : List (List Char)) :
    textOfLines (left ++ right) = textOfLines left ++ textOfLines right :=
  List.flatMap_append

/-- What stands in front of the first of some mark, and what stands behind it. -/
theorem eq_of_append_cons_eq {α : Type} {mark : α} {left left' right right' : List α}
    (hleft : mark ∉ left) (hleft' : mark ∉ left')
    (h : left ++ mark :: right = left' ++ mark :: right') : left = left' ∧ right = right' := by
  induction left generalizing left' with
  | nil =>
      cases left' with
      | nil => exact ⟨rfl, (List.cons.inj h).2⟩
      | cons a left' => exact absurd ((List.cons.inj h).1 ▸ List.mem_cons_self) hleft'
  | cons a left ih =>
      cases left' with
      | nil => exact absurd ((List.cons.inj h).1 ▸ List.mem_cons_self) hleft
      | cons b left' =>
          obtain ⟨hhead, htail⟩ := List.cons.inj h
          obtain ⟨hrest, hright⟩ := ih (fun hmem => hleft (List.mem_cons_of_mem a hmem))
            (fun hmem => hleft' (List.mem_cons_of_mem b hmem)) htail
          exact ⟨by rw [hhead, hrest], hright⟩

/-- Lines without line feeds can be read off their text. -/
theorem eq_of_textOfLines_eq {left right : List (List Char)} (hleft : ∀ line ∈ left, '\n' ∉ line)
    (hright : ∀ line ∈ right, '\n' ∉ line) (h : textOfLines left = textOfLines right) :
    left = right := by
  induction left generalizing right with
  | nil =>
      cases right with
      | nil => rfl
      | cons line right =>
          rw [textOfLines_cons] at h
          exact absurd h.symm (List.append_ne_nil_of_right_ne_nil _ (List.cons_ne_nil _ _))
  | cons first left ih =>
      cases right with
      | nil =>
          rw [textOfLines_cons] at h
          exact absurd h (List.append_ne_nil_of_right_ne_nil _ (List.cons_ne_nil _ _))
      | cons line right =>
          rw [textOfLines_cons, textOfLines_cons] at h
          obtain ⟨hline, hrest⟩ := eq_of_append_cons_eq (hleft first List.mem_cons_self)
            (hright line List.mem_cons_self) h
          rw [hline, ih (fun other hother => hleft other (List.mem_cons_of_mem first hother))
            (fun other hother => hright other (List.mem_cons_of_mem line hother)) hrest]

/-- The lines for a rule: its text between quotes, its instructions, and an empty line. -/
def Rule.lines (rule : Rule) : List (List Char) :=
  ('\x22' :: rule.text.toList ++ ['\x22']) ::
    (rule.program.instructions.map (·.text.toList) ++ [[]])

/-- The lines for counts. -/
def ProgramStats.lines (stats : ProgramStats) : List (List Char) :=
  ["#rule = " ++ toString stats.rules, "#instruction = " ++ toString stats.instructions,
    "#char = " ++ toString stats.char, "#skip_to = " ++ toString stats.skipTo,
    "#skip_scheme = " ++ toString stats.skipScheme,
    "#match = " ++ toString stats.accept].map String.toList

theorem Rule.toList_listing (rule : Rule) : rule.listing.toList = textOfLines rule.lines := by
  have hinstructions : (String.join (rule.program.instructions.map
      fun instruction => instruction.text ++ "\n")).toList =
      textOfLines (rule.program.instructions.map (·.text.toList)) := by
    rw [String.toList_join, textOfLines, List.flatMap_map, List.flatMap_map]
    exact List.flatMap_congr fun instruction _ => String.toList_append
  rw [lines, textOfLines_cons, textOfLines_append, listing, String.toList_append,
    String.toList_append, String.toList_append, String.toList_append, hinstructions]
  simp [textOfLines]

theorem ProgramStats.toList_text (stats : ProgramStats) :
    stats.text.toList = textOfLines stats.lines := by
  simp [text, lines, textOfLines]

/-- A listing is the text of the lines of all rules and of their counts. -/
theorem toList_listing (rules : List Rule) :
    (listing rules).toList =
      textOfLines (rules.flatMap Rule.lines ++ (ProgramStats.ofRules rules).lines) := by
  have hrules : (String.join (rules.map Rule.listing)).toList =
      textOfLines (rules.flatMap Rule.lines) := by
    rw [String.toList_join, List.flatMap_map, textOfLines, List.flatMap_assoc]
    exact List.flatMap_congr fun rule _ => rule.toList_listing
  rw [listing_eq, String.toList_append, hrules, ProgramStats.toList_text, textOfLines_append]

theorem newline_not_mem_escapeByte (byte : UInt8) : '\n' ∉ escapeByte byte := by
  revert byte
  apply forall_byte
  decide +kernel

/-- The name of an operand is a word for a mark or the name of a byte. -/
theorem Operand.newline_not_mem_name (operand : Int) : '\n' ∉ (name operand).toList := by
  rw [name]
  split
  · decide
  · split
    · decide
    · split
      · decide
      · rw [String.toList_ofList]
        exact newline_not_mem_escapeByte _

theorem Instruction.newline_not_mem_text (instruction : Instruction) :
    '\n' ∉ instruction.text.toList := by
  have hname := Operand.newline_not_mem_name instruction.operand
  obtain ⟨opcode, operand⟩ := instruction
  cases opcode <;> simp_all [text, Opcode.mnemonic]

theorem Instruction.text_ne_nil (instruction : Instruction) : instruction.text.toList ≠ [] := by
  obtain ⟨opcode, operand⟩ := instruction
  cases opcode <;> simp [text, Opcode.mnemonic]

theorem Rule.newline_not_mem_lines {rule : Rule} (h : '\n' ∉ rule.text.toList) :
    ∀ line ∈ rule.lines, '\n' ∉ line := by
  intro line hline
  rcases List.mem_cons.1 hline with rfl | hline
  · simpa using h
  · rcases List.mem_append.1 hline with hline | hline
    · obtain ⟨instruction, -, rfl⟩ := List.mem_map.1 hline
      exact instruction.newline_not_mem_text
    · rw [List.mem_singleton.1 hline]
      exact List.not_mem_nil

theorem not_mem_toDigits {c : Char} (hc : c.isDigit = false) (number : Nat) :
    c ∉ Nat.toDigits 10 number := by
  intro h
  rw [Nat.isDigit_of_mem_toDigits (by decide) (by decide) h] at hc
  contradiction

theorem ProgramStats.newline_not_mem_lines (stats : ProgramStats) :
    ∀ line ∈ stats.lines, '\n' ∉ line := by
  simp [lines, not_mem_toDigits (show '\n'.isDigit = false by decide)]

end UrlFilter
