/-
Reading programs back.

Every instruction of a program is written in a pattern text in one way: a comparison as its byte,
a search as a wildcard and its byte, and the rest as bars.  So the text of a pattern can be read
off its instructions, and nothing of the text is lost but the mark of an exception and, where the
case of letters does not count, their case.
-/
import UrlFilter.Proofs.Pattern.Case
import UrlFilter.Proofs.Rule.Exception

namespace UrlFilter

/-- The byte that an operand is written as.  The marks of the two ends are both bars. -/
def Operand.sign (operand : Int) : UInt8 :=
  if operand = separator then Byte.caret
  else if operand = head ∨ operand = tail then Byte.bar
  else UInt8.ofNat operand.toNat

/-- The bytes that an instruction is written as. -/
def Instruction.written (instruction : Instruction) : List UInt8 :=
  match instruction.opcode with
  | .char => [Operand.sign instruction.operand]
  | .skipTo => [Byte.star, Operand.sign instruction.operand]
  | .skipScheme => [Byte.bar]
  | .accept => []

namespace Pattern

/-- The text of some bytes of ASCII. -/
def textOfBytes (bytes : List UInt8) : String :=
  String.ofList (bytes.map Char.ofUInt8)

/-- The pattern text that instructions are written as. -/
def decode (instructions : List Instruction) : String :=
  textOfBytes (instructions.flatMap Instruction.written)

/-- The text without the mark of an exception at its front, of which one is taken. -/
def unmarked (text : String) : String :=
  String.ofList (stripFront ['@', '@'] text.toList)

end Pattern

theorem Operand.sign_ofByte {byte : UInt8} (hurl : isUrlByte byte = true) :
    sign (ofByte byte) = byte := by
  revert byte
  apply forall_byte
  decide +kernel

theorem Atom.sign_operand {atom : Atom} (hatom : atom.IsWritable) :
    Operand.sign (atom.operand true) = atom.byte := by
  cases atom with
  | separator => rfl
  | literal byte => exact Operand.sign_ofByte hatom

theorem Token.written_instruction {token : Token} (htoken : token.IsWritable) :
    (token.instruction true).written = token.bytes := by
  cases token with
  | here atom => exact congrArg (fun byte => [byte]) (Atom.sign_operand htoken.1)
  | seek atom => exact congrArg (fun byte => [Byte.star, byte]) (Atom.sign_operand htoken)

theorem Atom.IsWritable.lower {atom : Atom} (hatom : atom.IsWritable) : atom.lower.IsWritable := by
  cases atom with
  | separator => trivial
  | literal byte => exact isUrlByte_lowerByte hatom

theorem Token.IsWritable.lower {token : Token} (htoken : token.IsWritable) :
    token.lower.IsWritable := by
  cases token with
  | here atom =>
      refine ⟨htoken.1.lower, fun hstar => byte_ne_star htoken ?_⟩
      have hbyte := congrArg Atom.byte hstar
      rw [Atom.byte_lower] at hbyte
      exact (lowerByte_eq_iff (by decide)).1 hbyte
  | seek atom => exact Atom.IsWritable.lower htoken

namespace Pattern

/-- Can the pattern be written so that each of its tokens is read as itself? -/
def IsWritable (pattern : Pattern) : Prop :=
  ∀ token ∈ pattern.tokens, token.IsWritable

theorem IsWritable.lower {pattern : Pattern} (hpattern : pattern.IsWritable) :
    pattern.lower.IsWritable := by
  intro token htoken
  obtain ⟨other, hother, rfl⟩ := List.mem_map.1 htoken
  exact (hpattern other hother).lower

/-- The instructions of a pattern are written as its text. -/
theorem IsWritable.written_instructions {pattern : Pattern} (hpattern : pattern.IsWritable) :
    (pattern.instructions true).flatMap Instruction.written = pattern.bytes := by
  have hanchor : pattern.anchor.instructions.flatMap Instruction.written =
      pattern.anchor.bytes := by
    cases pattern.anchor <;> rfl
  have htail : (if pattern.tail then [Instruction.tail] else []).flatMap Instruction.written =
      if pattern.tail then [Byte.bar] else [] := by
    cases pattern.tail <;> rfl
  have htokens : (pattern.tokens.map (Token.instruction true)).flatMap Instruction.written =
      pattern.tokens.flatMap Token.bytes := by
    rw [List.flatMap_map]
    exact List.flatMap_congr fun token htoken => Token.written_instruction (hpattern token htoken)
  rw [instructions, List.flatMap_append, List.flatMap_append, List.flatMap_append, hanchor,
    htokens, htail, bytes]
  exact List.append_nil _

theorem toLower_textOfBytes (bytes : List UInt8) :
    (textOfBytes bytes).toLower = textOfBytes (bytes.map lowerByte) := by
  apply String.toList_inj.1
  rw [toList_toLower, textOfBytes, textOfBytes, String.toList_ofList, String.toList_ofList,
    List.map_map, List.map_map]
  exact List.map_congr_left fun byte _ => toLower_ofUInt8 byte

theorem textOfBytes_inj {left right : List UInt8} :
    textOfBytes left = textOfBytes right ↔ left = right := by
  rw [textOfBytes, textOfBytes, String.ofList_inj]
  exact ofUInt8_injective.list_map.eq_iff

theorem unmarked_eq_self {text : String} (hmark : ¬ ['@', '@'] <+: text.toList) :
    unmarked text = text := by
  rw [unmarked, stripFront_eq_self hmark, String.ofList_toList]

/-- Without the mark, a text that is read as a pattern is the text of that pattern. -/
theorem unmarked_eq_textOfBytes {text : String} {pattern : Pattern}
    (hread : read (utf8 text) = .ok pattern) : unmarked text = textOfBytes pattern.bytes := by
  obtain ⟨lead, tail, hopens, -, rfl⟩ := read_eq_ok_iff.1 hread
  have hchars := toList_eq_map_of_ascii hopens.byte_lt_of_tail
  have hbytes := hopens.text_eq_markBytes_append
  rw [unmarked, textOfBytes]
  apply congrArg String.ofList
  cases hmarked : lead.marked with
  | true =>
      have hmark : lead.markBytes = exceptionMark := if_pos hmarked
      rw [hchars, hbytes, hmark, List.map_append]
      exact stripFront_append ['@', '@'] _
  | false =>
      have hmark : lead.markBytes = [] := if_neg (Bool.eq_false_iff.1 hmarked)
      have hnot : ¬ ['@', '@'] <+: text.toList := by
        intro hprefix
        have htaken := hopens.mark_taken (exceptionMark_prefix_utf8_iff.2 hprefix)
        rw [hmarked] at htaken
        contradiction
      rw [stripFront_eq_self hnot, hchars, hbytes, hmark, List.nil_append]

/-- What stands behind the mark of a lead, if it has one, opens with the same anchor and tokens
behind another mark. -/
theorem Lead.Opens.mark {lead : Lead} {behind rest : List UInt8}
    (hopens : lead.Opens (lead.markBytes ++ behind) rest) :
    Opens { lead with marked := true } (exceptionMark ++ behind) rest where
  text_eq := by
    have htext := hopens.text_eq
    rw [Lead.bytes, List.append_assoc, List.append_assoc] at htext
    rw [List.append_cancel_left htext, Lead.bytes, Lead.markBytes, if_pos rfl, List.append_assoc,
      List.append_assoc]
  tokens_writable := hopens.tokens_writable
  mark_taken := fun _ => rfl
  anchor_longest := by
    intro anchor hfront
    apply hopens.anchor_longest anchor
    have hanchor := (List.prefix_append_right_inj exceptionMark).1 hfront
    exact (List.prefix_append_right_inj lead.markBytes).2 hanchor

/-- Behind a mark of an exception, the text of a pattern is read as that pattern, also if it
begins with another mark. -/
theorem read_exceptionMark_append {text : List UInt8} {pattern : Pattern}
    (hread : read text = .ok pattern) :
    read (exceptionMark ++ pattern.bytes) = .ok pattern := by
  obtain ⟨lead, tail, hopens, hsize, rfl⟩ := read_eq_ok_iff.1 hread
  rw [hopens.text_eq_markBytes_append] at hopens
  exact read_eq_ok_iff.2 ⟨_, tail, hopens.mark, hsize, rfl⟩

/-- Patterns that can be read differ in their texts. -/
theorem eq_of_bytes_eq {leftText rightText : List UInt8} {left right : Pattern}
    (hleft : read leftText = .ok left) (hright : read rightText = .ok right)
    (hbytes : left.bytes = right.bytes) : left = right := by
  have hread := read_exceptionMark_append hleft
  rw [hbytes, read_exceptionMark_append hright] at hread
  exact (Except.ok.inj hread).symm

theorem compile_eq_ok_iff_read {text : String} {flags : Flags} {program : List Instruction} :
    compile text flags = .ok program ↔
      ∃ pattern, read (utf8 text) = .ok pattern ∧
        program = pattern.instructions (flags.contains .matchCase) := by
  rw [compile]
  cases read (utf8 text) <;> simp [Except.map, eq_comm]

section Decode

variable {text : String} {flags : Flags} {program : List Instruction}

theorem isWritable_of_read {text : List UInt8} {pattern : Pattern}
    (hread : read text = .ok pattern) : pattern.IsWritable := by
  obtain ⟨lead, tail, hopens, -, rfl⟩ := read_eq_ok_iff.1 hread
  exact hopens.tokens_writable

/-- A program is written as the text that it was compiled from, without the mark and in small
letters if the case does not count. -/
theorem decode_eq_of_compile (hcompile : compile text flags = .ok program) :
    decode program =
      if flags.contains .matchCase then unmarked text else (unmarked text).toLower := by
  obtain ⟨pattern, hread, rfl⟩ := compile_eq_ok_iff_read.1 hcompile
  have hwritable := isWritable_of_read hread
  rw [unmarked_eq_textOfBytes hread, decode]
  cases flags.contains .matchCase with
  | true => rw [hwritable.written_instructions, if_pos rfl]
  | false =>
      rw [← instructions_lower, hwritable.lower.written_instructions, bytes_lower,
        if_neg Bool.false_ne_true, toLower_textOfBytes]

/-- What a program without a mark is written as compiles to it. -/
theorem compile_decode (hcompile : compile text flags = .ok program)
    (hmark : ¬ ['@', '@'] <+: text.toList) : compile (decode program) flags = .ok program := by
  rw [decode_eq_of_compile hcompile, unmarked_eq_self hmark]
  cases hcase : flags.contains .matchCase with
  | true => exact hcompile
  | false =>
      obtain ⟨pattern, hread, rfl⟩ := compile_eq_ok_iff_read.1 hcompile
      refine compile_eq_ok_iff_read.2 ⟨pattern.lower, ?_, ?_⟩
      · rw [if_neg Bool.false_ne_true, utf8_toLower]
        exact pattern.read_map_lowerByte_of_read hread
      · rw [hcase, ← instructions_lower, ← instructions_lower, lower_lower]

/-- Texts that are the same but for the mark, and for the case of letters if that does not count,
have the same program. -/
theorem program_eq_of_unmarked_eq {left right : String}
    {leftProgram rightProgram : List Instruction}
    (hleft : compile left flags = .ok leftProgram)
    (hright : compile right flags = .ok rightProgram)
    (htexts : if flags.contains .matchCase then unmarked left = unmarked right
      else (unmarked left).toLower = (unmarked right).toLower) :
    leftProgram = rightProgram := by
  obtain ⟨p, hp, rfl⟩ := compile_eq_ok_iff_read.1 hleft
  obtain ⟨q, hq, rfl⟩ := compile_eq_ok_iff_read.1 hright
  rw [unmarked_eq_textOfBytes hp, unmarked_eq_textOfBytes hq] at htexts
  cases hcase : flags.contains .matchCase with
  | true =>
      rw [hcase, if_pos rfl, textOfBytes_inj] at htexts
      rw [eq_of_bytes_eq hp hq htexts]
  | false =>
      rw [hcase, if_neg Bool.false_ne_true, toLower_textOfBytes, toLower_textOfBytes,
        textOfBytes_inj, ← bytes_lower, ← bytes_lower] at htexts
      have hlower := eq_of_bytes_eq (p.read_map_lowerByte_of_read hp)
        (q.read_map_lowerByte_of_read hq) htexts
      rw [← instructions_lower, ← instructions_lower, hlower]

end Decode

/-- Programs determine their pattern texts.  Where the case of letters counts, a program is
written as the text that it was compiled from, without one mark of an exception if the text
begins so.  The program of a text without the mark is compiled again from what it is written as.
So two texts have the same program exactly if they are the same without one mark each, and where
the case does not count exactly if they then differ in the case of letters only. -/
theorem program_determines_text {left right : String} {flags : Flags}
    {leftProgram rightProgram : List Instruction}
    (hleft : compile left flags = .ok leftProgram)
    (hright : compile right flags = .ok rightProgram) :
    (flags.contains .matchCase = true → decode leftProgram = unmarked left) ∧
      (¬ ['@', '@'] <+: left.toList → compile (decode leftProgram) flags = .ok leftProgram) ∧
      (leftProgram = rightProgram ↔
        if flags.contains .matchCase then unmarked left = unmarked right
        else (unmarked left).toLower = (unmarked right).toLower) := by
  have hdecode := decode_eq_of_compile hleft
  refine ⟨?_, compile_decode hleft, ?_, program_eq_of_unmarked_eq hleft hright⟩
  · intro hcase
    rw [hdecode, if_pos hcase]
  · -- One program is written as one text, and both texts are that one.
    intro heq
    rw [heq, decode_eq_of_compile hright] at hdecode
    by_cases hcase : flags.contains .matchCase = true
    · rw [if_pos hcase, if_pos hcase] at hdecode
      rw [if_pos hcase]
      exact hdecode.symm
    · rw [if_neg hcase, if_neg hcase] at hdecode
      rw [if_neg hcase]
      exact hdecode.symm

/-- A marked text with a capital behind a wildcard, and the same text without the mark. -/
theorem decode_program_of_marked_text :
    let program : List Instruction :=
      [Instruction.head, Instruction.skipScheme, ⟨.char, 0x61⟩, ⟨.skipTo, 0x42⟩,
        ⟨.char, Operand.separator⟩, Instruction.tail, Instruction.accept]
    let flags := Flags.empty.insert .matchCase
    compile "@@||a*B^|" flags = .ok program ∧ compile "||a*B^|" flags = .ok program ∧
      decode program = "||a*B^|" ∧ unmarked "@@||a*B^|" = unmarked "||a*B^|" := by
  intro program flags
  have hmarked : compile "@@||a*B^|" flags = .ok program := by decide +kernel
  have hplain : compile "||a*B^|" flags = .ok program := by decide +kernel
  have hcase : flags.contains .matchCase = true := by decide
  obtain ⟨hdecode, -, -⟩ := program_determines_text hplain hmarked
  obtain ⟨-, -, hsame⟩ := program_determines_text hmarked hplain
  refine ⟨hmarked, hplain, hdecode hcase, ?_⟩
  have htexts := hsame.1 rfl
  rwa [hcase] at htexts

end Pattern

end UrlFilter
