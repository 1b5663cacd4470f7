/-
Patterns with an end anchor.

The end anchor asks for the terminator under the cursor.  The terminator is read behind
the last byte of a URI, and also where a zero byte stands in it.  So an anchored literal
matches at the end of a URI and in front of a zero byte, and nowhere else.
-/
import UrlFilter.Proofs.Matching.Wildcard
import UrlFilter.Proofs.Text.Runs

namespace UrlFilter

/-- The end anchor fits where nothing or a zero byte stands. -/
theorem Operand.fits_tail_iff {text : String} {place : Nat} :
    Operand.fits Operand.tail (byteAt text.toByteArray place) = true ↔
      ∀ byte, (utf8 text)[place]? = some byte → byte = terminator := by
  have htail : Operand.tail = Operand.ofByte terminator := rfl
  have hread := @byteAt_mem_iff text place (· == terminator) rfl
  simp only [beq_iff_eq] at hread
  rw [htail, Operand.fits_ofByte, decide_eq_true_eq, eq_comm, hread]

/-- A text that a part begins, with nothing or one byte at its end, is that part or goes on
with the byte. -/
theorem prefix_and_getElem?_iff {part text : List UInt8} {byte : UInt8} :
    (part <+: text ∧ ∀ other, text[part.length]? = some other → other = byte) ↔
      text = part ∨ part ++ [byte] <+: text := by
  have hall : ∀ list : List UInt8, list.takeWhile (fun _ => true) = list :=
    fun list => List.takeWhile_eq_self_iff.2 fun _ _ => rfl
  have hiff := @prefix_and_next_iff_takeWhile UInt8 (fun _ => true) (· == byte)
    (fun _ h => Bool.noConfusion h) part text fun _ _ => rfl
  simpa only [beq_iff_eq, hall, exists_eq_left] using hiff

/-- The same at some place of a text. -/
theorem exists_prefix_and_getElem?_iff {part text : List UInt8} {byte : UInt8}
    (hne : part ≠ []) :
    (∃ origin < text.length, part <+: text.drop origin ∧
      ∀ other, text[origin + part.length]? = some other → other = byte) ↔
      part <:+ text ∨ part ++ [byte] <:+: text := by
  simp only [← List.getElem?_drop, prefix_and_getElem?_iff]
  constructor
  · rintro ⟨origin, -, hpart | hpart⟩
    · exact Or.inl (hpart ▸ List.drop_suffix origin text)
    · exact Or.inr (hpart.isInfix.trans (List.drop_suffix origin text).isInfix)
  · have hpos := List.length_pos_iff.2 hne
    rintro (⟨front, rfl⟩ | ⟨front, back, rfl⟩)
    · exact ⟨front.length, by simp [hpos], Or.inl (by simp)⟩
    · refine ⟨front.length, ?_, Or.inr ⟨back, by simp⟩⟩
      simp only [List.length_append]
      omega

/-- A run over a literal and the end anchor. -/
theorem run_tailed_literal_iff {literal : List UInt8}
    (hurl : ∀ byte ∈ literal, isUrlByte byte = true) {text : String} {origin : Nat} :
    run text.toByteArray
        (((literal.map Atom.literal).map Token.here).map (Token.instruction false) ++
          [Instruction.tail, Instruction.accept]) origin = true ↔
      literal.map lowerByte <+: (utf8 text).drop origin ∧
        ∀ byte, (utf8 text)[origin + literal.length]? = some byte → byte = terminator := by
  rw [run_literals_iff hurl, Instruction.tail, run_char_iff, Operand.fits_tail_iff, run_accept]
  simp only [and_true]

namespace Line.IsPlain

/-- A plain line of an anchor, a literal and the end anchor has a rule.  The rule needs the
literal, in lower case, from a place where a match may start, and behind it nothing or a
zero byte. -/
theorem exists_rule_of_tailed_literal {line : String} (hplain : Line.IsPlain line)
    {anchor : Anchor} {literal : List UInt8}
    (htext : utf8 line = anchor.bytes ++ literal ++ [Byte.bar]) (hne : literal ≠ [])
    (hbytes : ∀ byte ∈ literal, IsPlainByte byte)
    (hsize : anchor.instructions.length + literal.length + 2 ≤ instructionLimit) :
    ∃ rule, compileLine line = .ok (some rule) ∧ ∀ mode query,
      rule.accepts mode query = true ↔
        ∃ origin, anchor.Admits (utf8 query.uri) origin ∧
          literal.map lowerByte <+: (utf8 query.uri).drop origin ∧
          ∀ byte, (utf8 query.uri)[origin + literal.length]? = some byte →
            byte = terminator := by
  have hurl : ∀ byte ∈ literal, isUrlByte byte = true := fun byte hbyte => (hbytes byte hbyte).1
  have hplainBytes : ∀ byte ∈ utf8 line, byte = Byte.bar ∨ IsPlainByte byte := by
    intro byte hbyte
    rw [htext, List.mem_append, List.mem_append, List.mem_singleton] at hbyte
    rcases hbyte with (hbyte | hbyte) | hbyte
    · exact Or.inl (Anchor.eq_bar_of_mem_bytes hbyte)
    · exact Or.inr (hbytes byte hbyte)
    · exact Or.inl hbyte
  have hdollar : Byte.dollar ∉ utf8 line := fun h => absurd (hplainBytes _ h) (by decide)
  have hstar : Byte.star ∉ utf8 line := fun h => absurd (hplainBytes _ h) (by decide)
  have hcaret : Byte.caret ∉ utf8 line := fun h => absurd (hplainBytes _ h) (by decide)
  rw [mem_utf8_iff (by decide)] at hstar hcaret
  have hempty : utf8 "" = [] := by decide
  have hline : line ≠ "" := by
    rintro rfl
    rw [hempty] at htext
    exact List.cons_ne_nil _ _ (List.append_eq_nil_iff.1 htext.symm).2
  have hpattern : utf8 line =
      Pattern.bytes ⟨anchor, (literal.map Atom.literal).map Token.here, true⟩ := by
    rw [htext, Pattern.bytes, flatMap_bytes_map_literal]
    rfl
  have hwritable : ∀ token ∈ (literal.map Atom.literal).map Token.here, token.IsWritable :=
    fun token htoken =>
      Token.isWritable_of_isPlain (atom_isPlain_of_mem_map_literal hbytes token htoken)
  obtain ⟨rule, hrule, haccepts⟩ :=
    hplain.exists_rule hline hdollar (Pattern.isNormal_of_not_mem hstar hcaret) hpattern
      hwritable (by simpa using hne) (by simpa [Pattern.instructions, Nat.add_assoc] using hsize)
  refine ⟨rule, hrule, fun mode query => ?_⟩
  rw [haccepts]
  have hrun := @run_tailed_literal_iff literal hurl query.uri
  simp only [Pattern.body, if_true, List.singleton_append, hrun]
  refine and_iff_right_of_imp ?_
  rintro ⟨origin, -, hliteral, -⟩ huri
  rw [huri, hempty, List.drop_nil, List.prefix_nil, List.map_eq_nil_iff] at hliteral
  exact hne hliteral

end Line.IsPlain

/-- With an end anchor a plain literal accepts the URIs that end with it, in lower case,
and with a start anchor as well only the URI that is it.  A zero byte behind the literal
passes for the end of the URI. -/
theorem accepts_tailed_literal_iff {literal : List UInt8} (hne : literal ≠ [])
    (hbytes : ∀ byte ∈ literal, IsPlainByte byte) :
    (∀ line, utf8 line = literal ++ [Byte.bar] → Line.IsPlain line →
      literal.length + 2 ≤ instructionLimit →
      ∃ rule, compileLine line = .ok (some rule) ∧ ∀ mode query,
        rule.accepts mode query = true ↔
          literal.map lowerByte <:+ utf8 query.uri ∨
            literal.map lowerByte ++ [terminator] <:+: utf8 query.uri) ∧
      ∀ line, utf8 line = Byte.bar :: literal ++ [Byte.bar] → Line.IsPlain line →
        literal.length + 3 ≤ instructionLimit →
        ∃ rule, compileLine line = .ok (some rule) ∧ ∀ mode query,
          rule.accepts mode query = true ↔
            utf8 query.uri = literal.map lowerByte ∨
              literal.map lowerByte ++ [terminator] <+: utf8 query.uri := by
  have hlower : literal.map lowerByte ≠ [] := by simpa using hne
  have hlength : (literal.map lowerByte).length = literal.length := List.length_map _
  constructor
  · intro line htext hplain hsize
    have hanchor : utf8 line = Anchor.anywhere.bytes ++ literal ++ [Byte.bar] := htext
    obtain ⟨rule, hrule, haccepts⟩ :=
      hplain.exists_rule_of_tailed_literal hanchor hne hbytes
        (by simpa [Anchor.instructions] using hsize)
    refine ⟨rule, hrule, fun mode query => ?_⟩
    rw [haccepts, ← exists_prefix_and_getElem?_iff hlower, hlength]
    rfl
  · intro line htext hplain hsize
    have hanchor : utf8 line = Anchor.start.bytes ++ literal ++ [Byte.bar] := htext
    obtain ⟨rule, hrule, haccepts⟩ :=
      hplain.exists_rule_of_tailed_literal hanchor hne hbytes
        (by simpa [Anchor.instructions, Nat.add_comm, Nat.add_left_comm] using hsize)
    refine ⟨rule, hrule, fun mode query => ?_⟩
    rw [haccepts, ← prefix_and_getElem?_iff, hlength]
    simp only [Anchor.Admits, exists_eq_left, List.drop_zero, Nat.zero_add]

/-- The filter for what ends in `.js`, and the one for `.js` alone. -/
theorem accepts_tailed_js :
    (Line.IsPlain ".Js|" ∧ ∃ rule, compileLine ".Js|" = .ok (some rule) ∧
      rule.accepts .inert (.mk "http://a.b/c.js") = true) ∧
      Line.IsPlain "|.Js|" ∧ ∃ rule, compileLine "|.Js|" = .ok (some rule) ∧
        rule.accepts .inert (.mk ".js") = true := by
  have hbytes : ∀ byte ∈ ([0x2e, 0x4a, 0x73] : List UInt8), IsPlainByte byte := by
    simp only [List.mem_cons, List.not_mem_nil, or_false, forall_eq_or_imp, forall_eq]
    decide
  have hplain : Line.IsPlain ".Js|" ∧ Line.IsPlain "|.Js|" := by decide
  obtain ⟨hback, hboth⟩ := accepts_tailed_literal_iff (by decide) hbytes
  obtain ⟨rule, hrule, haccepts⟩ := hback ".Js|" (by decide) hplain.1 (by decide)
  obtain ⟨exact, hexact, haccept⟩ := hboth "|.Js|" (by decide) hplain.2 (by decide)
  refine ⟨⟨hplain.1, rule, hrule, (haccepts .inert _).2 (Or.inl ?_)⟩,
    hplain.2, exact, hexact, (haccept .inert _).2 (Or.inl ?_)⟩
  · decide
  · decide

/-- An end anchor also accepts in front of a zero byte, where the URI does not end. -/
theorem not_accepts_only_at_end :
    ¬ ∀ literal : List UInt8, literal ≠ [] → (∀ byte ∈ literal, IsPlainByte byte) →
      (∀ line, utf8 line = literal ++ [Byte.bar] → Line.IsPlain line →
        literal.length + 2 ≤ instructionLimit →
        ∃ rule, compileLine line = .ok (some rule) ∧ ∀ mode query,
          rule.accepts mode query = true ↔ literal.map lowerByte <:+ utf8 query.uri) ∧
        ∀ line, utf8 line = Byte.bar :: literal ++ [Byte.bar] → Line.IsPlain line →
          literal.length + 3 ≤ instructionLimit →
          ∃ rule, compileLine line = .ok (some rule) ∧ ∀ mode query,
            rule.accepts mode query = true ↔ utf8 query.uri = literal.map lowerByte := by
  intro hclaim
  have hbytes : ∀ byte ∈ ([0x61] : List UInt8), IsPlainByte byte :=
    List.forall_mem_singleton.2 (by decide)
  obtain ⟨rule, hrule, haccepts⟩ :=
    (hclaim [0x61] (by decide) hbytes).1 "a|" (by decide) (by decide) (by decide)
  have hrun : ((compileLine "a|").toOption.join.map
      fun rule => rule.accepts .inert (.mk "a\x00b")) = some true := by decide +kernel
  rw [hrule] at hrun
  have haccept : rule.accepts .inert (.mk "a\x00b") = true := Option.some.inj hrun
  have hsuffix := (haccepts .inert (.mk "a\x00b")).1 haccept
  exact absurd hsuffix (by decide)

end UrlFilter
