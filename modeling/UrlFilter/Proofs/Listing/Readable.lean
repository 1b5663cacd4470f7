/-
Reading listings.

The lines of a listing tell what they are by how they begin: the text of a rule by a quote, the
counts by a number sign, and between the text and the next empty line stand the instructions.
The name of an operand is no word for another one, so an instruction can be read off its line.
A listing therefore shows all of the texts and the instructions of its rules, whatever stands
in the texts.
-/
import UrlFilter.Proofs.Listing.Lines
import UrlFilter.Proofs.RuleSet.Rebuild

namespace UrlFilter

/-- The value of a hexadecimal digit. -/
def hexValue (digit : Char) : Nat :=
  if digit.isDigit then digit.toNat - '0'.toNat else digit.toNat - 'a'.toNat + 10

/-- The byte that a name stands for. -/
def byteOfName : List Char → UInt8
  | ['\\', 't'] => 0x09
  | ['\\', 'n'] => 0x0a
  | ['\\', 'r'] => 0x0d
  | ['\\', c] => c.toUInt8
  | ['\\', 'x', high, low] => UInt8.ofNat (hexValue high * 16 + hexValue low)
  | [c] => c.toUInt8
  | _ => terminator

theorem byteOfName_escapeByte (byte : UInt8) : byteOfName (escapeByte byte) = byte := by
  revert byte
  apply forall_byte
  decide +kernel

/-- No byte has a word for a mark as its name. -/
theorem escapeByte_ne_word (byte : UInt8) :
    ["head", "tail", "separator"].all (fun word => escapeByte byte != word.toList) = true := by
  revert byte
  apply forall_byte
  decide +kernel

/-- The operand that a name stands for. -/
def Operand.ofName (name : List Char) : Int :=
  if name = "head".toList then head
  else if name = "tail".toList then tail
  else if name = "separator".toList then separator
  else ofByte (byteOfName name)

/-- The marks and the bytes can be read off their names. -/
theorem Operand.ofName_name {operand : Int} (hfrom : -2 ≤ operand) (hto : operand ≤ 255) :
    ofName (name operand).toList = operand := by
  rw [name]
  split
  · rename_i hhead
    exact hhead.symm
  · split
    · rename_i htail
      exact htail.symm
    · split
      · rename_i hseparator
        exact hseparator.symm
      · rename_i hhead htail hseparator
        have hwords := escapeByte_ne_word (UInt8.ofNat (operand % 256).toNat)
        simp only [List.all_cons, List.all_nil, Bool.and_true, Bool.and_eq_true,
          bne_iff_ne] at hwords
        rw [String.toList_ofList, ofName, if_neg hwords.1, if_neg hwords.2.1,
          if_neg hwords.2.2, byteOfName_escapeByte, ofByte]
        simp only [head, tail, separator] at hhead htail hseparator
        rw [UInt8.toNat_ofNat']
        omega

/-- An instruction whose operand is a mark or a byte, or zero for an opcode that takes none. -/
def Instruction.IsListable (instruction : Instruction) : Prop :=
  match instruction.opcode with
  | .char | .skipTo => -2 ≤ instruction.operand ∧ instruction.operand ≤ 255
  | .skipScheme | .accept => instruction.operand = 0

/-- The instruction that a line shows. -/
def Instruction.ofLine (line : List Char) : Instruction :=
  match "char ".toList.isPrefixOf? line with
  | some name => ⟨.char, Operand.ofName name⟩
  | none =>
      match "skip_to ".toList.isPrefixOf? line with
      | some name => ⟨.skipTo, Operand.ofName name⟩
      | none => if line = "match".toList then accept else skipScheme

/-- An instruction can be read off its line. -/
theorem Instruction.ofLine_text {instruction : Instruction} (h : instruction.IsListable) :
    ofLine instruction.text.toList = instruction := by
  obtain ⟨opcode, operand⟩ := instruction
  cases opcode with
  | char =>
      have htext : (text ⟨.char, operand⟩).toList =
          "char ".toList ++ (Operand.name operand).toList :=
        String.toList_append
      have hname : "char ".toList.isPrefixOf? (text ⟨.char, operand⟩).toList =
          some (Operand.name operand).toList :=
        List.isPrefixOf?_eq_some_iff_append_eq.2 htext.symm
      rw [ofLine, hname]
      exact congrArg (mk .char) (Operand.ofName_name h.1 h.2)
  | skipTo =>
      have htext : (text ⟨.skipTo, operand⟩).toList =
          "skip_to ".toList ++ (Operand.name operand).toList :=
        String.toList_append
      have hother : "char ".toList.isPrefixOf? (text ⟨.skipTo, operand⟩).toList = none := by
        rw [htext]
        rfl
      have hname : "skip_to ".toList.isPrefixOf? (text ⟨.skipTo, operand⟩).toList =
          some (Operand.name operand).toList :=
        List.isPrefixOf?_eq_some_iff_append_eq.2 htext.symm
      rw [ofLine, hother, hname]
      exact congrArg (mk .skipTo) (Operand.ofName_name h.1 h.2)
  | skipScheme =>
      obtain rfl : operand = 0 := h
      rfl
  | accept =>
      obtain rfl : operand = 0 := h
      rfl

theorem Instruction.eq_of_map_text_eq {left right : List Instruction}
    (hleft : ∀ instruction ∈ left, instruction.IsListable)
    (hright : ∀ instruction ∈ right, instruction.IsListable)
    (h : left.map (·.text.toList) = right.map (·.text.toList)) : left = right := by
  have hread : ∀ {instructions : List Instruction},
      (∀ instruction ∈ instructions, instruction.IsListable) →
        (instructions.map (·.text.toList)).map ofLine = instructions := by
    intro instructions hlistable
    have hline : ∀ instruction ∈ instructions,
        (ofLine ∘ (·.text.toList)) instruction = id instruction :=
      fun instruction hmem => ofLine_text (hlistable instruction hmem)
    rw [List.map_map, List.map_congr_left hline, List.map_id]
  rw [← hread hleft, h, hread hright]

/-- A rule that a listing shows in full. -/
structure Rule.IsListable (rule : Rule) : Prop where
  newline_not_mem : '\n' ∉ rule.text.toList
  instructions : ∀ instruction ∈ rule.program.instructions, instruction.IsListable

/-- Two rules with the same text and the same instructions. -/
structure Rule.ShownAlike (left right : Rule) : Prop where
  text_eq : left.text = right.text
  instructions_eq : left.program.instructions = right.program.instructions

/-- The first rule can be read off lines, and what stands behind it. -/
theorem Rule.shownAlike_of_lines_append {left right : Rule} (hleft : left.IsListable)
    (hright : right.IsListable) {leftRest rightRest : List (List Char)}
    (h : left.lines ++ leftRest = right.lines ++ rightRest) :
    left.ShownAlike right ∧ leftRest = rightRest := by
  have hempty : ∀ rule : Rule, [] ∉ rule.program.instructions.map (·.text.toList) := by
    intro rule hmem
    obtain ⟨instruction, -, hnil⟩ := List.mem_map.1 hmem
    exact instruction.text_ne_nil hnil
  simp only [lines, List.cons_append, List.append_assoc, List.cons.injEq, true_and,
    List.nil_append] at h
  obtain ⟨htext, hbehind⟩ := h
  obtain ⟨hinstructions, hrest⟩ := eq_of_append_cons_eq (hempty left) (hempty right) hbehind
  refine ⟨⟨?_, ?_⟩, hrest⟩
  · exact String.toList_inj.1 (List.append_cancel_right htext)
  · exact Instruction.eq_of_map_text_eq hleft.instructions hright.instructions hinstructions

/-- The lines of counts are no lines of rules. -/
theorem ProgramStats.lines_ne_append (stats : ProgramStats) (rule : Rule)
    (rest : List (List Char)) : stats.lines ≠ rule.lines ++ rest := by
  intro h
  have hfirst := congrArg (fun lines => lines.head?.bind List.head?) h
  simp [lines, Rule.lines] at hfirst

theorem shownAlike_of_lines_eq {left right : List Rule} (hleft : ∀ rule ∈ left, rule.IsListable)
    (hright : ∀ rule ∈ right, rule.IsListable) {leftStats rightStats : ProgramStats}
    (h : left.flatMap Rule.lines ++ leftStats.lines =
      right.flatMap Rule.lines ++ rightStats.lines) :
    List.Forall₂ Rule.ShownAlike left right := by
  induction left generalizing right with
  | nil =>
      cases right with
      | nil => exact .nil
      | cons rule right =>
          rw [List.flatMap_cons, List.append_assoc] at h
          exact absurd h (leftStats.lines_ne_append rule _)
  | cons first left ih =>
      cases right with
      | nil =>
          rw [List.flatMap_cons, List.append_assoc] at h
          exact absurd h.symm (rightStats.lines_ne_append first _)
      | cons rule right =>
          rw [List.flatMap_cons, List.flatMap_cons, List.append_assoc, List.append_assoc] at h
          obtain ⟨halike, hrest⟩ := Rule.shownAlike_of_lines_append
            (hleft first List.mem_cons_self) (hright rule List.mem_cons_self) h
          exact .cons halike
            (ih (fun other hother => hleft other (List.mem_cons_of_mem first hother))
              (fun other hother => hright other (List.mem_cons_of_mem rule hother)) hrest)

/-- The instructions of patterns are shown in full. -/
theorem Pattern.isListable_of_mem_instructions {pattern : Pattern} {matchCase : Bool}
    {instruction : Instruction} (h : instruction ∈ pattern.instructions matchCase) :
    instruction.IsListable := by
  have hatom : ∀ atom : Atom, -2 ≤ atom.operand matchCase ∧ atom.operand matchCase ≤ 255 := by
    intro atom
    cases atom with
    | separator =>
        change -2 ≤ Operand.separator ∧ Operand.separator ≤ 255
        decide
    | literal byte =>
        simp only [Atom.operand, Operand.ofByte]
        have := (if matchCase then byte else lowerByte byte).toNat_lt
        omega
  simp only [instructions, List.mem_append, List.mem_map, List.mem_singleton] at h
  rcases h with ((h | ⟨token, -, rfl⟩) | h) | rfl
  · rcases mem_anchor_instructions h with rfl | rfl
    · exact ⟨by decide, by decide⟩
    · rfl
  · cases token with
    | here atom => exact hatom atom
    | seek atom => exact hatom atom
  · split at h
    · rw [List.mem_singleton.1 h]
      exact ⟨by decide, by decide⟩
    · contradiction
  · rfl

/-- So are the rules of lists. -/
theorem Rule.IsListed.isListable {rule : Rule} (h : rule.IsListed) : rule.IsListable := by
  refine ⟨h.isLine.no_newline, fun instruction hinstruction => ?_⟩
  have harises := LineOutcome.arises_ofText rule.text
  rw [h.outcome_eq] at harises
  cases harises with
  | rule _ hcompile =>
      obtain ⟨instructions, hpattern, hrule⟩ := Filter.exists_instructions_of_compile hcompile
      obtain ⟨lead, tail, -, hinstructions, -⟩ := Pattern.compile_eq_ok_iff.1 hpattern
      rw [hrule] at hinstruction
      change instruction ∈ instructions at hinstruction
      rw [hinstructions] at hinstruction
      exact Pattern.isListable_of_mem_instructions hinstruction

/-- A listing loses nothing of what it shows.  Two lists of rules with the same listing have the
same number of rules and, one after the other, rules with the same text and the same
instructions, if no text has a line feed in it and all operands are marks or bytes; and this
holds of all rules that come from lists. -/
theorem shownAlike_of_listing_eq :
    (∀ mode loads, ∀ rule ∈ ((RuleSet.empty mode).loadAll loads).rules, rule.IsListable) ∧
      ∀ left right : List Rule, (∀ rule ∈ left, rule.IsListable) →
        (∀ rule ∈ right, rule.IsListable) → listing left = listing right →
        List.Forall₂ Rule.ShownAlike left right := by
  constructor
  · intro mode loads rule hrule
    rcases RuleSet.mem_loadAll hrule with hempty | hlisted
    · contradiction
    · exact hlisted.isListable
  · intro left right hleft hright h
    have hnewline : ∀ {rules : List Rule}, (∀ rule ∈ rules, rule.IsListable) →
        ∀ line ∈ rules.flatMap Rule.lines ++ (ProgramStats.ofRules rules).lines,
          '\n' ∉ line := by
      intro rules hlistable line hline
      rcases List.mem_append.1 hline with hline | hline
      · obtain ⟨rule, hrule, hline⟩ := List.mem_flatMap.1 hline
        exact Rule.newline_not_mem_lines (hlistable rule hrule).newline_not_mem line hline
      · exact ProgramStats.newline_not_mem_lines _ line hline
    have htext := congrArg String.toList h
    rw [toList_listing, toList_listing] at htext
    exact shownAlike_of_lines_eq hleft hright
      (eq_of_textOfLines_eq (hnewline hleft) (hnewline hright) htext)

/-- Two rules with quotes and a mnemonic in their text that differ in what a listing does not
show. -/
theorem shownAlike_of_quoted_texts :
    let instructions : List Instruction :=
      [Instruction.head, Instruction.skipScheme, ⟨.skipTo, Operand.separator⟩,
        ⟨.char, 0x0a⟩, Instruction.tail, Instruction.accept]
    let left := Rule.assemble "a\"\\nchar \"b" "a" instructions Flags.empty [] []
    let right := Rule.assemble "a\"\\nchar \"b" "b" instructions
      (Flags.empty.insert .allow) [] [⟨"c"⟩]
    left ≠ right ∧ listing [left, right] = listing [right, left] ∧
      left.IsListable ∧ right.IsListable ∧
      List.Forall₂ Rule.ShownAlike [left, right] [right, left] := by
  intro instructions left right
  have hinstructions : ∀ instruction ∈ instructions, instruction.IsListable := by
    simp [instructions, Instruction.IsListable, Instruction.head, Instruction.skipScheme,
      Instruction.tail, Instruction.accept, Operand.head, Operand.tail, Operand.separator]
  have hleft : left.IsListable := ⟨by decide, hinstructions⟩
  have hright : right.IsListable := ⟨by decide, hinstructions⟩
  have hlisting : listing [left, right] = listing [right, left] := by decide +kernel
  refine ⟨by decide, hlisting, hleft, hright,
    shownAlike_of_listing_eq.2 [left, right] [right, left] ?_ ?_ hlisting⟩
  · simp [hleft, hright]
  · simp [hleft, hright]

end UrlFilter
