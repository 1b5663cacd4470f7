/-
What a pattern text is translated to.

The grammar of pattern texts stands here with the instructions beside every part of a text, all in
bytes and numbers.  A text has an anchor and tokens behind the mark of an exception, and each of
them has instructions of its own, whatever stands around it.  The reader and the writer of patterns
together are this translation, as far as a text has one and the program has room.
-/
import UrlFilter.Proofs.Pattern.Grammar

namespace UrlFilter

namespace Pattern

/-- The operand of a literal byte is its number, or that of the small letter if the byte is a
capital and the case does not count. -/
def literalOperand (matchCase : Bool) (byte : UInt8) : Int :=
  if matchCase = false ∧ 65 ≤ byte.toNat ∧ byte.toNat ≤ 90 then byte.toNat + 32 else byte.toNat

/-- The text of an anchor, and its instructions. -/
inductive AnchorTranslates : List UInt8 → List Instruction → Prop
  | anywhere : AnchorTranslates [] []
  | start : AnchorTranslates [0x7c] [⟨.char, -1⟩]
  | host : AnchorTranslates [0x7c, 0x7c] [⟨.char, -1⟩, ⟨.skipScheme, 0⟩]

/-- The text of a token, and its instruction.  A literal byte is one that may stand in a URL, and
a wildcard is literal only behind another wildcard. -/
inductive TokenTranslates (matchCase : Bool) : List UInt8 → Instruction → Prop
  | separator : TokenTranslates matchCase [0x5e] ⟨.char, -2⟩
  | literal {byte : UInt8} : isUrlByte byte = true → byte ≠ 0x2a →
      TokenTranslates matchCase [byte] ⟨.char, literalOperand matchCase byte⟩
  | seekSeparator : TokenTranslates matchCase [0x2a, 0x5e] ⟨.skipTo, -2⟩
  | seekLiteral {byte : UInt8} : isUrlByte byte = true →
      TokenTranslates matchCase [0x2a, byte] ⟨.skipTo, literalOperand matchCase byte⟩

/-- The texts of tokens one after the other, and an instruction for each. -/
inductive TokensTranslate (matchCase : Bool) : List UInt8 → List Instruction → Prop
  | nil : TokensTranslate matchCase [] []
  | cons {token text : List UInt8} {instruction : Instruction} {program : List Instruction} :
      TokenTranslates matchCase token instruction → TokensTranslate matchCase text program →
      TokensTranslate matchCase (token ++ text) (instruction :: program)

/-- What may stand behind the tokens of a pattern, and its instructions. -/
inductive EndTranslates : List UInt8 → List Instruction → Prop
  | anywhere : EndTranslates [] [⟨.accept, 0⟩]
  | tail : EndTranslates [0x7c] [⟨.char, 0⟩, ⟨.accept, 0⟩]

/-- The front of a text is the mark of an exception or not, an anchor and tokens, and these are
translated to a program.  The mark is taken if it is there, and so is the longest anchor behind
it. -/
inductive FrontTranslates (matchCase : Bool) (rest : List UInt8) :
    List UInt8 → List Instruction → Prop
  | mk {mark anchor tokens : List UInt8} {anchored program : List Instruction} :
      mark = [] ∨ mark = [0x40, 0x40] → AnchorTranslates anchor anchored →
      TokensTranslate matchCase tokens program →
      ([0x40, 0x40] <+: mark ++ anchor ++ tokens ++ rest → mark ≠ []) →
      (∀ other instructions, AnchorTranslates other instructions →
        other <+: anchor ++ tokens ++ rest → other.length ≤ anchor.length) →
      FrontTranslates matchCase rest (mark ++ anchor ++ tokens) (anchored ++ program)

/-! ### Parts -/

theorem toNat_lowerByte (byte : UInt8) : (lowerByte byte).toNat =
    if 65 ≤ byte.toNat ∧ byte.toNat ≤ 90 then byte.toNat + 32 else byte.toNat := by
  have hcapital : 0x41 ≤ byte ∧ byte ≤ 0x5a ↔ 65 ≤ byte.toNat ∧ byte.toNat ≤ 90 := Iff.rfl
  rw [lowerByte]
  by_cases h : 65 ≤ byte.toNat ∧ byte.toNat ≤ 90
  · rw [if_pos (hcapital.2 h), if_pos h, UInt8.toNat_add]
    exact Nat.mod_eq_of_lt (by change byte.toNat + 32 < 256; omega)
  · rw [if_neg (hcapital.not.2 h), if_neg h]

theorem operand_literal (matchCase : Bool) (byte : UInt8) :
    (Atom.literal byte).operand matchCase = literalOperand matchCase byte := by
  cases matchCase with
  | true => rfl
  | false =>
      simp only [literalOperand, Atom.operand, Operand.ofByte, Bool.false_eq_true, if_false,
        toNat_lowerByte, true_and]
      split <;> rfl

theorem anchorTranslates_iff {text : List UInt8} {program : List Instruction} :
    AnchorTranslates text program ↔
      ∃ anchor : Anchor, text = anchor.bytes ∧ program = anchor.instructions := by
  constructor
  · intro h
    cases h with
    | anywhere => exact ⟨.anywhere, rfl, rfl⟩
    | start => exact ⟨.start, rfl, rfl⟩
    | host => exact ⟨.host, rfl, rfl⟩
  · rintro ⟨anchor, rfl, rfl⟩
    cases anchor with
    | anywhere => exact .anywhere
    | start => exact .start
    | host => exact .host

theorem tokenTranslates_iff {matchCase : Bool} {text : List UInt8} {instruction : Instruction} :
    TokenTranslates matchCase text instruction ↔ ∃ token : Token, token.IsWritable ∧
      text = token.bytes ∧ instruction = token.instruction matchCase := by
  constructor
  · intro h
    cases h with
    | separator => exact ⟨.here .separator, ⟨trivial, nofun⟩, rfl, rfl⟩
    | @literal byte hbyte hstar =>
        refine ⟨.here (.literal byte), ⟨hbyte, ?_⟩, rfl, ?_⟩
        · exact fun h => hstar (Atom.literal.inj h)
        · rw [Token.instruction, operand_literal]
    | seekSeparator => exact ⟨.seek .separator, trivial, rfl, rfl⟩
    | @seekLiteral byte hbyte =>
        exact ⟨.seek (.literal byte), hbyte, rfl, by rw [Token.instruction, operand_literal]⟩
  · rintro ⟨token, htoken, rfl, rfl⟩
    cases token with
    | here atom =>
        cases atom with
        | separator => exact .separator
        | literal byte =>
            rw [Token.instruction, operand_literal]
            exact .literal htoken.1 fun h => htoken.2 (congrArg Atom.literal h)
    | seek atom =>
        cases atom with
        | separator => exact .seekSeparator
        | literal byte =>
            rw [Token.instruction, operand_literal]
            exact .seekLiteral htoken

theorem tokensTranslate_iff {matchCase : Bool} {text : List UInt8} {program : List Instruction} :
    TokensTranslate matchCase text program ↔
      ∃ tokens : List Token, (∀ token ∈ tokens, token.IsWritable) ∧
        text = tokens.flatMap Token.bytes ∧ program = tokens.map (Token.instruction matchCase) := by
  constructor
  · intro h
    induction h with
    | nil => exact ⟨[], nofun, rfl, rfl⟩
    | cons htoken _ ih =>
        obtain ⟨token, hwritable, rfl, rfl⟩ := tokenTranslates_iff.1 htoken
        obtain ⟨tokens, hothers, rfl, rfl⟩ := ih
        exact ⟨token :: tokens, List.forall_mem_cons.2 ⟨hwritable, hothers⟩, rfl, rfl⟩
  · rintro ⟨tokens, hwritable, rfl, rfl⟩
    induction tokens with
    | nil => exact .nil
    | cons token tokens ih =>
        obtain ⟨htoken, hothers⟩ := List.forall_mem_cons.1 hwritable
        exact .cons (tokenTranslates_iff.2 ⟨token, htoken, rfl, rfl⟩) (ih hothers)

theorem endTranslates_iff {text : List UInt8} {program : List Instruction} :
    EndTranslates text program ↔ ∃ tail : Bool, text = (if tail then [Byte.bar] else []) ∧
      program = (if tail then [Instruction.tail] else []) ++ [Instruction.accept] := by
  constructor
  · intro h
    cases h with
    | anywhere => exact ⟨false, rfl, rfl⟩
    | tail => exact ⟨true, rfl, rfl⟩
  · rintro ⟨tail, rfl, rfl⟩
    cases tail with
    | false => exact .anywhere
    | true => exact .tail

/-- The instructions for a lead. -/
def Lead.program (matchCase : Bool) (lead : Lead) : List Instruction :=
  lead.anchor.instructions ++ lead.tokens.map (Token.instruction matchCase)

theorem Lead.length_program (matchCase : Bool) (lead : Lead) :
    (lead.program matchCase).length = lead.emitted := by
  rw [program, emitted, List.length_append, List.length_map]

/-- What is translated in front of a text is a lead that opens it. -/
theorem FrontTranslates.exists_opens {matchCase : Bool} {front rest : List UInt8}
    {program : List Instruction} (h : FrontTranslates matchCase rest front program) :
    ∃ lead : Lead, lead.Opens (front ++ rest) rest ∧ front = lead.bytes ∧
      program = lead.program matchCase := by
  cases h with
  | @mk mark anchor tokens _ _ hmark hanchor htokens htaken hlongest =>
      obtain ⟨anchor, rfl, rfl⟩ := anchorTranslates_iff.1 hanchor
      obtain ⟨tokens, hwritable, rfl, rfl⟩ := tokensTranslate_iff.1 htokens
      obtain ⟨marked, rfl⟩ : ∃ marked : Bool, mark = if marked then exceptionMark else [] := by
        rcases hmark with rfl | rfl
        · exact ⟨false, rfl⟩
        · exact ⟨true, rfl⟩
      refine ⟨⟨marked, anchor, tokens⟩, ⟨rfl, hwritable, ?_, ?_⟩, rfl, rfl⟩
      · intro hprefix
        cases marked with
        | false => exact absurd rfl (htaken hprefix)
        | true => rfl
      · intro other hprefix
        rw [Lead.markBytes, List.append_assoc, List.append_assoc,
          List.prefix_append_right_inj, ← List.append_assoc] at hprefix
        exact hlongest _ _ (anchorTranslates_iff.2 ⟨other, rfl, rfl⟩) hprefix

/-- A lead that opens a text is translated in front of it. -/
theorem Lead.Opens.frontTranslates {lead : Lead} {text rest : List UInt8}
    (hopens : lead.Opens text rest) (matchCase : Bool) :
    FrontTranslates matchCase rest lead.bytes (lead.program matchCase) := by
  have hbytes : text = lead.markBytes ++ lead.anchor.bytes ++
      lead.tokens.flatMap Token.bytes ++ rest := hopens.text_eq
  refine .mk ?_ (anchorTranslates_iff.2 ⟨lead.anchor, rfl, rfl⟩)
    (tokensTranslate_iff.2 ⟨lead.tokens, hopens.tokens_writable, rfl, rfl⟩) ?_ ?_
  · rw [Lead.markBytes]
    cases lead.marked with
    | false => exact Or.inl rfl
    | true => exact Or.inr rfl
  · intro hprefix
    rw [Lead.markBytes, hopens.mark_taken (hbytes ▸ hprefix)]
    exact List.cons_ne_nil _ _
  · intro other _ hother hprefix
    obtain ⟨other, rfl, -⟩ := anchorTranslates_iff.1 hother
    apply hopens.anchor_longest other
    rw [hbytes, List.append_assoc, List.append_assoc, List.prefix_append_right_inj,
      ← List.append_assoc]
    exact hprefix

/-! ### Answers -/

section Answers

variable {text : String} {flags : Flags}

/-- A text is compiled to its translation, if it has one within the limit. -/
theorem compile_eq_ok_iff_translates {instructions : List Instruction} :
    compile text flags = .ok instructions ↔
      ∃ (front rest : List UInt8) (program ending : List Instruction),
        utf8 text = front ++ rest ∧
          FrontTranslates (flags.contains .matchCase) rest front program ∧
          EndTranslates rest ending ∧ instructions = program ++ ending ∧
          instructions.length ≤ 4096 := by
  constructor
  · intro hcompile
    obtain ⟨lead, tail, hopens, rfl, hsize⟩ := compile_eq_ok_iff.1 hcompile
    exact ⟨lead.bytes, _, lead.program _, _, hopens.text_eq, hopens.frontTranslates _,
      endTranslates_iff.2 ⟨tail, rfl, rfl⟩, List.append_assoc _ _ _, hsize⟩
  · rintro ⟨front, rest, program, ending, htext, hfront, hending, rfl, hsize⟩
    obtain ⟨lead, hopens, rfl, rfl⟩ := hfront.exists_opens
    obtain ⟨tail, rfl, rfl⟩ := endTranslates_iff.1 hending
    exact compile_eq_ok_iff.2
      ⟨lead, tail, htext ▸ hopens, (List.append_assoc _ _ _).symm, hsize⟩

theorem compile_eq_invalidByte_iff {offset : Nat} {byte : UInt8} :
    compile text flags = .error (.invalidByte offset byte) ↔
      ∃ (front rest : List UInt8) (program : List Instruction) (delay : Nat),
        utf8 text = front ++ rest ∧
          FrontTranslates (flags.contains .matchCase) rest front program ∧
          Stuck rest delay ∧ program.length < 4095 ∧ offset = front.length + delay ∧
          byte = (utf8 text)[offset]?.getD 0 := by
  rw [compile_eq_error_iff, read_eq_invalidByte_iff]
  constructor
  · rintro ⟨lead, rest, delay, hopens, hstuck, hroom, hoffset, hbyte⟩
    rw [← lead.length_program (flags.contains .matchCase)] at hroom
    exact ⟨lead.bytes, rest, lead.program _, delay, hopens.text_eq, hopens.frontTranslates _,
      hstuck, hroom, hoffset, hbyte⟩
  · rintro ⟨front, rest, program, delay, htext, hfront, hstuck, hroom, hoffset, hbyte⟩
    obtain ⟨lead, hopens, rfl, rfl⟩ := hfront.exists_opens
    rw [lead.length_program] at hroom
    exact ⟨lead, rest, delay, htext ▸ hopens, hstuck, hroom, hoffset, hbyte⟩

theorem compile_eq_tooLong_iff : compile text flags = .error .tooLong ↔
    ∃ (front rest : List UInt8) (program : List Instruction),
      utf8 text = front ++ rest ∧
        FrontTranslates (flags.contains .matchCase) rest front program ∧
        rest ≠ [] ∧ program.length = 4095 := by
  rw [compile_eq_error_iff, read_eq_tooLong_iff]
  constructor
  · rintro ⟨lead, rest, hopens, hrest, hfull⟩
    rw [← lead.length_program (flags.contains .matchCase)] at hfull
    exact ⟨lead.bytes, rest, lead.program _, hopens.text_eq, hopens.frontTranslates _, hrest,
      hfull⟩
  · rintro ⟨front, rest, program, htext, hfront, hrest, hfull⟩
    obtain ⟨lead, hopens, rfl, rfl⟩ := hfront.exists_opens
    rw [lead.length_program] at hfull
    exact ⟨lead, rest, htext ▸ hopens, hrest, hfull⟩

end Answers

/-- The three answers that a pattern text can have, each with the texts that have it.  A text that
can be translated is answered with the translation, if that is within the limit.  Otherwise, if a
byte at fault comes up while there is room for an instruction besides acceptance, the answer is
that byte and its place; and if the text goes on when there is no such room, the answer is that it
is too long. -/
theorem compile_eq_iff (text : String) (flags : Flags) :
    let matchCase := flags.contains .matchCase
    (∀ instructions, compile text flags = .ok instructions ↔
      ∃ (front rest : List UInt8) (program ending : List Instruction),
        utf8 text = front ++ rest ∧ FrontTranslates matchCase rest front program ∧
          EndTranslates rest ending ∧ instructions = program ++ ending ∧
          instructions.length ≤ 4096) ∧
      (∀ offset byte, compile text flags = .error (.invalidByte offset byte) ↔
        ∃ (front rest : List UInt8) (program : List Instruction) (delay : Nat),
          utf8 text = front ++ rest ∧ FrontTranslates matchCase rest front program ∧
            Stuck rest delay ∧ program.length < 4095 ∧ offset = front.length + delay ∧
            byte = (utf8 text)[offset]?.getD 0) ∧
      (compile text flags = .error .tooLong ↔
        ∃ (front rest : List UInt8) (program : List Instruction),
          utf8 text = front ++ rest ∧ FrontTranslates matchCase rest front program ∧
            rest ≠ [] ∧ program.length = 4095) :=
  ⟨fun _ => compile_eq_ok_iff_translates, fun _ _ => compile_eq_invalidByte_iff,
    compile_eq_tooLong_iff⟩

/-- An anchored pattern with a capital letter and a search for a separator, and the same with a
wildcard at its end that looks for nothing. -/
theorem compile_anchored_capital :
    compile "||Ad*^x" .empty =
        .ok [⟨.char, -1⟩, ⟨.skipScheme, 0⟩, ⟨.char, 97⟩, ⟨.char, 100⟩, ⟨.skipTo, -2⟩,
          ⟨.char, 120⟩, ⟨.accept, 0⟩] ∧
      compile "||Ad*^x*" .empty = .error (.invalidByte 8 0) := by
  have htokens : TokensTranslate false ([0x41] ++ ([0x64] ++ ([0x2a, 0x5e] ++ ([0x78] ++ []))))
      [⟨.char, 97⟩, ⟨.char, 100⟩, ⟨.skipTo, -2⟩, ⟨.char, 120⟩] :=
    .cons (.literal rfl (by decide)) (.cons (.literal rfl (by decide))
      (.cons .seekSeparator (.cons (.literal rfl (by decide)) .nil)))
  have hfront (rest : List UInt8) :
      FrontTranslates false rest ([] ++ [0x7c, 0x7c] ++ [0x41, 0x64, 0x2a, 0x5e, 0x78])
        ([⟨.char, -1⟩, ⟨.skipScheme, 0⟩] ++
          [⟨.char, 97⟩, ⟨.char, 100⟩, ⟨.skipTo, -2⟩, ⟨.char, 120⟩]) := by
    refine .mk (Or.inl rfl) .host htokens ?_ ?_
    · rintro ⟨behind, hbehind⟩
      exact absurd (List.head_eq_of_cons_eq hbehind) (by decide)
    · intro other _ hother _
      cases hother <;> decide
  constructor
  · exact ((compile_eq_iff "||Ad*^x" .empty).1 _).2
      ⟨_, [], _, _, by decide, hfront [], .anywhere, rfl, by decide⟩
  · exact ((compile_eq_iff "||Ad*^x*" .empty).2.1 8 0).2
      ⟨_, [0x2a], _, 1, by decide, hfront [0x2a], .danglingStar, by decide, rfl, by decide⟩

end Pattern

end UrlFilter
