/-
The shape of compiled rules.

The instructions of a pattern are those of its anchor, one for each token, perhaps
the end anchor, and acceptance.  An instruction of a token is none of the special
ones, so each special instruction is found at its own place only.
-/
import UrlFilter.Filter.Compile
import UrlFilter.Proofs.Pattern.Clean
import UrlFilter.Proofs.Matching.Start

namespace UrlFilter

/-- Is the byte an ASCII capital? -/
def IsCapital (byte : UInt8) : Prop := 0x41 ≤ byte ∧ byte ≤ 0x5a

instance (byte : UInt8) : Decidable (IsCapital byte) :=
  inferInstanceAs (Decidable (_ ∧ _))

/-- An operand that asks for a separator or a plain byte.  Without `matchCase` the
byte is no capital. -/
def Operand.IsPlain (matchCase : Bool) (operand : Int) : Prop :=
  operand = Operand.separator ∨ ∃ byte, operand = Operand.ofByte byte ∧
    IsPlainByte byte ∧ (matchCase = false → ¬ IsCapital byte)

/-- What a compiled rule looks like. -/
structure Rule.WellFormed (rule : Rule) : Prop where
  accept_last : ∃ front, rule.program.instructions = front ++ [Instruction.accept] ∧
    ∀ instruction ∈ front, instruction.opcode ≠ .accept
  count_eq : rule.program.header.count = rule.program.instructions.length
  count_le : rule.program.header.count ≤ instructionLimit
  flags_eq : rule.program.header.flags = rule.flags
  head_first : ∀ index : Nat,
    rule.program.instructions[index]? = some Instruction.head → index = 0
  scheme_behind_head : ∀ (index : Nat) (instruction : Instruction),
    rule.program.instructions[index]? = some instruction →
      instruction.opcode = .skipScheme →
      index = 1 ∧ rule.program.instructions[0]? = some Instruction.head
  tail_before_accept : ∀ index : Nat,
    rule.program.instructions[index]? = some Instruction.tail →
      rule.program.instructions[index + 1]? = some Instruction.accept
  tail_not_behind_separator : ∀ (index : Nat) (instruction : Instruction),
    rule.program.instructions[index]? = some instruction →
      rule.program.instructions[index + 1]? = some Instruction.tail →
      instruction.operand ≠ Operand.separator
  operand_plain : ∀ instruction ∈ rule.program.instructions,
    instruction.opcode = .char ∨ instruction.opcode = .skipTo →
      instruction ≠ Instruction.head → instruction ≠ Instruction.tail →
      Operand.IsPlain (rule.flags.contains .matchCase) instruction.operand
  domain_iff : rule.flags.contains .domain = true ↔
    rule.included ≠ [] ∨ rule.excluded ≠ []

/-- Small letters are plain bytes, so a plain byte in lower case is one. -/
theorem IsPlainByte.lowerByte {byte : UInt8} (hbyte : IsPlainByte byte) :
    IsPlainByte (lowerByte byte) ∧ ¬ IsCapital (UrlFilter.lowerByte byte) := by
  revert byte
  apply forall_byte
  decide +kernel

theorem Atom.IsPlain.operand_isPlain {atom : Atom} (hatom : atom.IsPlain)
    (matchCase : Bool) : Operand.IsPlain matchCase (atom.operand matchCase) := by
  cases atom with
  | separator => exact Or.inl rfl
  | literal byte =>
      right
      cases matchCase with
      | true => exact ⟨byte, rfl, hatom, fun h => Bool.noConfusion h⟩
      | false =>
          obtain ⟨hplain, hcapital⟩ := IsPlainByte.lowerByte hatom
          exact ⟨lowerByte byte, rfl, hplain, fun _ => hcapital⟩

namespace Operand

theorem IsPlain.ne_tail {matchCase : Bool} {operand : Int}
    (h : IsPlain matchCase operand) : operand ≠ tail := by
  rcases h with rfl | ⟨byte, rfl, hplain, -⟩
  · decide
  · intro htail
    have hzero : byte = terminator := UInt8.toNat_inj.1 (Int.ofNat.inj htail)
    have hurl := hplain.1
    rw [hzero, not_isUrlByte_terminator] at hurl
    contradiction

end Operand

theorem Token.operand_instruction (matchCase : Bool) (token : Token) :
    (token.instruction matchCase).operand = token.atom.operand matchCase := by
  cases token <;> rfl

theorem Token.opcode_instruction (matchCase : Bool) (token : Token) :
    (token.instruction matchCase).opcode = .char ∨
      (token.instruction matchCase).opcode = .skipTo := by
  cases token with
  | here atom => exact Or.inl rfl
  | seek atom => exact Or.inr rfl

/-- What stands in a list but not in its second part stands in the first one. -/
theorem getElem?_of_append_of_not_mem {α : Type} {left right : List α} {index : Nat}
    {a : α} (h : (left ++ right)[index]? = some a) (hright : a ∉ right) :
    left[index]? = some a := by
  rw [List.getElem?_append] at h
  split at h
  · exact h
  · exact absurd (List.mem_of_getElem? h) hright

namespace Pattern

/-- The instructions of a pattern in front of its end. -/
def opening (pattern : Pattern) (matchCase : Bool) : List Instruction :=
  pattern.anchor.instructions ++ pattern.tokens.map (Token.instruction matchCase)

/-- The instructions for the end of a pattern. -/
def ending (pattern : Pattern) : List Instruction :=
  (if pattern.tail then [Instruction.tail] else []) ++ [Instruction.accept]

theorem instructions_eq_opening_append (pattern : Pattern) (matchCase : Bool) :
    pattern.instructions matchCase = pattern.opening matchCase ++ pattern.ending := by
  simp only [instructions, opening, ending, List.append_assoc]

variable {pattern : Pattern} {matchCase : Bool} {index : Nat} {instruction : Instruction}

theorem mem_body (h : instruction ∈ pattern.body matchCase) :
    (∃ token ∈ pattern.tokens, instruction = token.instruction matchCase) ∨
      instruction = Instruction.tail ∨ instruction = Instruction.accept := by
  rw [body, List.mem_append, List.mem_append, List.mem_map] at h
  rcases h with ⟨token, htoken, rfl⟩ | h | h
  · exact Or.inl ⟨token, htoken, rfl⟩
  · split at h
    · exact Or.inr (Or.inl (List.mem_singleton.1 h))
    · contradiction
  · exact Or.inr (Or.inr (List.mem_singleton.1 h))

theorem head_not_mem_body : Instruction.head ∉ pattern.body matchCase := by
  intro h
  rcases mem_body h with ⟨token, -, heq⟩ | heq | heq
  · exact token.instruction_ne_head matchCase heq.symm
  · exact absurd heq (by decide)
  · exact absurd heq (by decide)

theorem opcode_ne_skipScheme_of_mem_body (h : instruction ∈ pattern.body matchCase) :
    instruction.opcode ≠ .skipScheme := by
  rcases mem_body h with ⟨token, -, rfl⟩ | rfl | rfl
  · rcases token.opcode_instruction matchCase with hopcode | hopcode
    · rw [hopcode]
      decide
    · rw [hopcode]
      decide
  · decide
  · decide

theorem mem_anchor_instructions {anchor : Anchor}
    (h : instruction ∈ anchor.instructions) :
    instruction = Instruction.head ∨ instruction = Instruction.skipScheme := by
  cases anchor with
  | anywhere => cases h
  | start => exact Or.inl (List.mem_singleton.1 h)
  | host => simpa [Anchor.instructions] using h

theorem getElem?_anchor_instructions {anchor : Anchor}
    (h : anchor.instructions[index]? = some instruction) :
    (index = 0 ∧ instruction = Instruction.head) ∨
      (index = 1 ∧ instruction = Instruction.skipScheme ∧
        anchor.instructions[0]? = some Instruction.head) := by
  match anchor, index, h with
  | .start, 0, h => exact Or.inl ⟨rfl, (Option.some.inj h).symm⟩
  | .host, 0, h => exact Or.inl ⟨rfl, (Option.some.inj h).symm⟩
  | .host, 1, h => exact Or.inr ⟨rfl, (Option.some.inj h).symm, rfl⟩

theorem index_of_head (h : (pattern.instructions matchCase)[index]? =
    some Instruction.head) : index = 0 := by
  rw [instructions_eq] at h
  have hanchor := getElem?_of_append_of_not_mem h head_not_mem_body
  rcases getElem?_anchor_instructions hanchor with ⟨hindex, -⟩ | ⟨-, heq, -⟩
  · exact hindex
  · exact absurd heq (by decide)

theorem index_of_skipScheme
    (h : (pattern.instructions matchCase)[index]? = some instruction)
    (hopcode : instruction.opcode = .skipScheme) :
    index = 1 ∧ (pattern.instructions matchCase)[0]? = some Instruction.head := by
  rw [instructions_eq] at h ⊢
  have hanchor := getElem?_of_append_of_not_mem h
    fun hbody => opcode_ne_skipScheme_of_mem_body hbody hopcode
  rcases getElem?_anchor_instructions hanchor with ⟨-, heq⟩ | ⟨hindex, -, hhead⟩
  · rw [heq] at hopcode
    exact absurd hopcode (by decide)
  · refine ⟨hindex, ?_⟩
    rw [List.getElem?_append_left (List.getElem?_eq_some_iff.1 hhead).1]
    exact hhead

theorem operand_isPlain_of_mem_body (hclean : pattern.IsClean)
    (h : instruction ∈ pattern.body matchCase) :
    Operand.IsPlain matchCase instruction.operand ∨ instruction = Instruction.tail ∨
      instruction = Instruction.accept := by
  rcases mem_body h with ⟨token, htoken, rfl⟩ | heq
  · rw [Token.operand_instruction]
    exact Or.inl ((hclean.atom_plain token htoken).operand_isPlain matchCase)
  · exact Or.inr heq

theorem tail_not_mem_opening (hclean : pattern.IsClean) :
    Instruction.tail ∉ pattern.opening matchCase := by
  intro h
  rcases List.mem_append.1 h with h | h
  · rcases mem_anchor_instructions h with heq | heq
    · exact absurd heq (by decide)
    · exact absurd heq (by decide)
  · obtain ⟨token, htoken, heq⟩ := List.mem_map.1 h
    have hplain := (hclean.atom_plain token htoken).operand_isPlain matchCase
    rw [← Token.operand_instruction, heq] at hplain
    exact hplain.ne_tail rfl

/-- The end anchor stands right behind the opening. -/
theorem index_of_tail (hclean : pattern.IsClean)
    (h : (pattern.instructions matchCase)[index]? = some Instruction.tail) :
    pattern.tail = true ∧ index = (pattern.opening matchCase).length := by
  rw [instructions_eq_opening_append, List.getElem?_append] at h
  split at h
  · exact absurd (List.mem_of_getElem? h) (tail_not_mem_opening hclean)
  · rename_i hindex
    have hle := Nat.le_of_not_lt hindex
    rw [ending] at h
    cases htail : pattern.tail with
    | false =>
        rw [htail] at h
        have hmem := List.mem_of_getElem? h
        exact absurd hmem (by decide)
    | true =>
        rw [htail] at h
        refine ⟨rfl, Nat.le_antisymm (Nat.le_of_not_lt fun hlt => ?_) hle⟩
        obtain ⟨place, hplace⟩ := Nat.exists_eq_add_of_lt hlt
        rw [hplace, Nat.add_assoc, Nat.add_sub_cancel_left] at h
        have hmem : Instruction.tail ∈ [Instruction.accept] :=
          List.mem_of_getElem? h
        exact absurd hmem (by decide)

theorem operand_ne_separator_of_getLast? (hclean : pattern.IsClean)
    (htail : pattern.tail = true)
    (h : (pattern.opening matchCase).getLast? = some instruction) :
    instruction.operand ≠ Operand.separator := by
  rcases pattern.tokens.eq_nil_or_concat with hnil | ⟨others, last, hconcat⟩
  · have hmem : instruction ∈ pattern.anchor.instructions := by
      rw [opening, hnil, List.map_nil, List.append_nil] at h
      exact List.mem_of_getLast? h
    rcases mem_anchor_instructions hmem with rfl | rfl
    · decide
    · decide
  · rw [List.concat_eq_append] at hconcat
    rw [opening, hconcat, List.map_append, ← List.append_assoc, List.map_singleton,
      List.getLast?_concat] at h
    have hatom := hclean.no_separator_before_tail htail last (by simp [hconcat])
    rw [← Option.some.inj h, Token.operand_instruction]
    cases hlast : last.atom with
    | separator => exact absurd hlast hatom
    | literal byte => exact Operand.ofByte_ne_separator _

theorem opcode_ne_accept_of_mem_opening (h : instruction ∈ pattern.opening matchCase) :
    instruction.opcode ≠ .accept := by
  rcases List.mem_append.1 h with h | h
  · rcases mem_anchor_instructions h with rfl | rfl
    · decide
    · decide
  · obtain ⟨token, -, rfl⟩ := List.mem_map.1 h
    exact token.opcode_ne_accept matchCase

theorem accept_last (pattern : Pattern) (matchCase : Bool) :
    ∃ front, pattern.instructions matchCase = front ++ [Instruction.accept] ∧
      ∀ instruction ∈ front, instruction.opcode ≠ .accept := by
  refine ⟨pattern.opening matchCase ++ if pattern.tail then [Instruction.tail] else [],
    ?_, ?_⟩
  · rw [instructions_eq_opening_append, ending, List.append_assoc]
  · intro instruction h
    rcases List.mem_append.1 h with h | h
    · exact opcode_ne_accept_of_mem_opening h
    · split at h
      · rw [List.mem_singleton.1 h]
        decide
      · contradiction

theorem accept_behind_tail (hclean : pattern.IsClean)
    (h : (pattern.instructions matchCase)[index]? = some Instruction.tail) :
    (pattern.instructions matchCase)[index + 1]? = some Instruction.accept := by
  obtain ⟨htail, hindex⟩ := index_of_tail hclean h
  rw [hindex, instructions_eq_opening_append,
    List.getElem?_append_right (Nat.le_add_right _ 1), Nat.add_sub_cancel_left, ending,
    htail]
  rfl

theorem operand_ne_separator_of_tail (hclean : pattern.IsClean)
    (h : (pattern.instructions matchCase)[index]? = some instruction)
    (hnext : (pattern.instructions matchCase)[index + 1]? = some Instruction.tail) :
    instruction.operand ≠ Operand.separator := by
  obtain ⟨htail, hindex⟩ := index_of_tail hclean hnext
  have hlt : index < (pattern.opening matchCase).length :=
    Nat.lt_of_succ_le (Nat.le_of_eq hindex)
  rw [instructions_eq_opening_append, List.getElem?_append_left hlt] at h
  apply operand_ne_separator_of_getLast? hclean htail
  rw [List.getLast?_eq_getElem?, ← hindex]
  exact h

theorem operand_isPlain_of_mem (hclean : pattern.IsClean)
    (h : instruction ∈ pattern.instructions matchCase)
    (hopcode : instruction.opcode = .char ∨ instruction.opcode = .skipTo)
    (hhead : instruction ≠ Instruction.head) (htail : instruction ≠ Instruction.tail) :
    Operand.IsPlain matchCase instruction.operand := by
  rw [instructions_eq, List.mem_append] at h
  rcases h with h | h
  · rcases mem_anchor_instructions h with rfl | rfl
    · exact absurd rfl hhead
    · exact absurd hopcode (by decide)
  · rcases operand_isPlain_of_mem_body hclean h with hplain | heq | rfl
    · exact hplain
    · exact absurd heq htail
    · exact absurd hopcode (by decide)

end Pattern

/-- The rule put together from the instructions of a clean pattern is well formed. -/
theorem Pattern.IsClean.wellFormed_assemble {pattern : Pattern}
    (hclean : pattern.IsClean) {flags : Flags}
    (hsize : (pattern.instructions (flags.contains .matchCase)).length ≤ instructionLimit)
    (text patternText : String) (included excluded : List DomainToken) :
    (Rule.assemble text patternText (pattern.instructions (flags.contains .matchCase))
      flags included excluded).WellFormed where
  accept_last := Pattern.accept_last _ _
  count_eq := rfl
  count_le := hsize
  flags_eq := rfl
  head_first := fun _ h => Pattern.index_of_head h
  scheme_behind_head := fun _ _ h hopcode => Pattern.index_of_skipScheme h hopcode
  tail_before_accept := fun _ h => Pattern.accept_behind_tail hclean h
  tail_not_behind_separator := fun _ _ h hnext =>
    Pattern.operand_ne_separator_of_tail hclean h hnext
  operand_plain := by
    intro instruction h hopcode hhead htail
    rw [Rule.contains_assemble (by decide)]
    exact Pattern.operand_isPlain_of_mem hclean h hopcode hhead htail
  domain_iff := by
    rw [Rule.contains_domain_assemble]
    change _ ↔ included ≠ [] ∨ excluded ≠ []
    simp

theorem Filter.exists_instructions_of_compile {filter : Filter} {rule : Rule}
    (h : filter.compile = .ok rule) :
    ∃ instructions, Pattern.compile filter.pattern filter.flags = .ok instructions ∧
      rule = Rule.assemble filter.text filter.pattern instructions filter.flags
        filter.included filter.excluded := by
  unfold Filter.compile at h
  split at h
  · rename_i instructions hcompile
    exact ⟨instructions, hcompile, (Except.ok.inj h).symm⟩
  · cases h

/-- A filter that compiles has a well-formed rule. -/
theorem Filter.compile_wellFormed {line : String} {rule : Rule}
    (h : (Filter.ofText line).compile = .ok rule) : rule.WellFormed := by
  obtain ⟨instructions, hcompile, rfl⟩ := Filter.exists_instructions_of_compile h
  obtain ⟨pattern, hclean, rfl, hsize⟩ := Filter.exists_isClean_of_compile hcompile
  exact hclean.wellFormed_assemble hsize _ _ _ _

theorem Line.eq_ofText_of_filter {line : String} {filter : Filter}
    (h : Line.ofText line = .filter filter) : filter = Filter.ofText line := by
  rw [Line.ofText] at h
  split at h
  · contradiction
  · contradiction
  · split at h
    · contradiction
    · exact (Line.filter.inj h).symm

/-- The rule of a line is the rule of its filter. -/
theorem Filter.compile_of_compileLine {line : String} {rule : Rule}
    (h : compileLine line = .ok (some rule)) : (Filter.ofText line).compile = .ok rule := by
  rw [compileLine] at h
  split at h
  · rename_i filter hline
    rw [Line.eq_ofText_of_filter hline] at h
    cases hcompile : (Filter.ofText line).compile with
    | error error =>
        rw [hcompile] at h
        contradiction
    | ok compiled =>
        rw [hcompile] at h
        exact congrArg Except.ok (Option.some.inj (Except.ok.inj h))
  all_goals cases h

end UrlFilter
