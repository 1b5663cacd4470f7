/-
Where a match starts.

The anchor of a pattern says from which places of a URI its tokens are tried.
The program of the pattern says the same in two ways, by the head anchor in front
of it and by the move over the scheme behind that.
-/
import UrlFilter.Proofs.Machine.Run
import UrlFilter.Proofs.Pattern.Plain

namespace UrlFilter

/-- May a match start at a place of a URI?  Without an anchor it may start at every
byte, and with a bar at the first place only.  With two bars it starts behind a
run of scheme bytes, a colon and all the slashes that follow. -/
def Anchor.Admits (uri : List UInt8) (origin : Nat) : Anchor → Prop
  | anywhere => origin < uri.length
  | start => origin = 0
  | host => ∃ colon, uri[colon]? = some Byte.colon ∧
      (∀ place < colon, ∃ byte, uri[place]? = some byte ∧ isSchemeByte byte = true) ∧
      colon < origin ∧ uri[origin]? ≠ some Byte.slash ∧
      ∀ place, colon < place → place < origin → uri[place]? = some Byte.slash

/-- A class that the terminator is not in has the byte at a place exactly if a byte
of it stands there. -/
theorem byteAt_mem_iff_exists {text : String} {place : Nat} {class? : UInt8 → Bool}
    (hterminator : class? terminator = false) :
    class? (byteAt text.toByteArray place) = true ↔
      ∃ byte, (utf8 text)[place]? = some byte ∧ class? byte = true := by
  constructor
  · intro hread
    have hne : byteAt text.toByteArray place ≠ terminator := by
      intro h
      rw [h, hterminator] at hread
      contradiction
    exact ⟨_, (byteAt_eq_iff hne).1 rfl, hread⟩
  · rintro ⟨byte, hbyte, hclass⟩
    have hne : byte ≠ terminator := by
      rintro rfl
      rw [hterminator] at hclass
      contradiction
    rw [(byteAt_eq_iff hne).2 hbyte]
    exact hclass

/-- The move over the scheme of a URI ends where a match of a host may start. -/
theorem move?_skipScheme_eq_some_iff_admits {text : String} {origin : Nat} :
    Instruction.skipScheme.move? text.toByteArray 0 = some origin ↔
      Anchor.host.Admits (utf8 text) origin := by
  have hcolon : Byte.colon ≠ terminator := by decide
  have hslash : Byte.slash ≠ terminator := by decide
  rw [Instruction.skipScheme, Instruction.move?_skipScheme_eq_some_iff]
  simp only [Anchor.Admits, Nat.zero_le, true_and, true_implies, ne_eq,
    byteAt_eq_iff hcolon, byteAt_eq_iff hslash,
    byteAt_mem_iff_exists not_isSchemeByte_terminator]

theorem Token.instruction_ne_head (matchCase : Bool) (token : Token) :
    token.instruction matchCase ≠ Instruction.head := by
  cases token with
  | seek atom => simp [Token.instruction, Instruction.head]
  | here atom =>
      cases atom with
      | separator => simp [Token.instruction, Instruction.head, Atom.operand, Operand.head,
          Operand.separator]
      | literal byte =>
          simp only [Token.instruction, Instruction.head, Atom.operand, Operand.head,
            Operand.ofByte, ne_eq, Instruction.mk.injEq, true_and]
          omega

namespace Pattern

/-- The instructions of a pattern behind those of its anchor. -/
def body (pattern : Pattern) (matchCase : Bool) : List Instruction :=
  pattern.tokens.map (Token.instruction matchCase) ++
    ((if pattern.tail then [Instruction.tail] else []) ++ [Instruction.accept])

theorem instructions_eq (pattern : Pattern) (matchCase : Bool) :
    pattern.instructions matchCase =
      pattern.anchor.instructions ++ pattern.body matchCase := by
  simp only [instructions, body, List.append_assoc]

theorem head?_body_ne_head (pattern : Pattern) (matchCase : Bool) :
    (pattern.body matchCase).head? ≠ some Instruction.head := by
  rw [body]
  cases pattern.tokens with
  | nil =>
      rw [List.map_nil, List.nil_append]
      cases pattern.tail <;> decide
  | cons token tokens =>
      intro h
      exact token.instruction_ne_head matchCase (Option.some.inj h)

/-- The text of a pattern is ASCII. -/
theorem byte_lt_of_mem_bytes {pattern : Pattern}
    (hwritable : ∀ token ∈ pattern.tokens, token.IsWritable) :
    ∀ byte ∈ pattern.bytes, byte < 0x80 := by
  have hbar : Byte.bar < 0x80 := by decide
  intro byte hbyte
  rw [bytes, List.mem_append, List.mem_append] at hbyte
  rcases hbyte with (hbyte | hbyte) | hbyte
  · rwa [Anchor.eq_bar_of_mem_bytes hbyte]
  · exact (Token.bytes_bounds hwritable byte hbyte).1
  · split at hbyte
    · rwa [List.mem_singleton.1 hbyte]
    · exact absurd hbyte List.not_mem_nil

end Pattern

namespace Program

theorem accepts_head_cons_iff {instructions : List Instruction} {flags : Flags}
    {bytes : ByteArray} :
    (ofInstructions (Instruction.head :: instructions) flags).accepts bytes = true ↔
      0 < bytes.size ∧ run bytes instructions 0 = true := by
  have hanchored :
      (ofInstructions (Instruction.head :: instructions) flags).isAnchored = true := by
    simp [isAnchored, ofInstructions]
  rw [accepts_iff]
  simp only [body, hanchored, true_implies, if_true]
  constructor
  · rintro ⟨start, hstart, rfl, hrun⟩
    exact ⟨hstart, hrun⟩
  · rintro ⟨hsize, hrun⟩
    exact ⟨0, hsize, rfl, hrun⟩

theorem accepts_of_head?_ne_iff {instructions : List Instruction} {flags : Flags}
    {bytes : ByteArray} (hhead : instructions.head? ≠ some Instruction.head) :
    (ofInstructions instructions flags).accepts bytes = true ↔
      ∃ start < bytes.size, run bytes instructions start = true := by
  have hanchored : (ofInstructions instructions flags).isAnchored = false := by
    simp [isAnchored, ofInstructions, hhead]
  rw [accepts_iff]
  simp only [body, hanchored, Bool.false_eq_true, false_implies, true_and, if_false]
  rfl

/-- The program of a pattern accepts a URI if the instructions behind its anchor
succeed from a place where a match may start. -/
theorem accepts_instructions_iff {pattern : Pattern} {matchCase : Bool}
    {flags : Flags} {uri : String} :
    (ofInstructions (pattern.instructions matchCase) flags).accepts
        uri.toByteArray = true ↔
      uri ≠ "" ∧ ∃ origin, pattern.anchor.Admits (utf8 uri) origin ∧
        run uri.toByteArray (pattern.body matchCase) origin = true := by
  have hsize : 0 < uri.toByteArray.size ↔ uri ≠ "" := by
    rw [Nat.pos_iff_ne_zero, ne_eq, ← String.utf8ByteSize, String.utf8ByteSize_eq_zero_iff]
  rw [Pattern.instructions_eq]
  cases pattern.anchor with
  | anywhere =>
      simp only [Anchor.instructions, List.nil_append, Anchor.Admits]
      rw [accepts_of_head?_ne_iff (pattern.head?_body_ne_head matchCase), ← hsize]
      constructor
      · rintro ⟨origin, horigin, hrun⟩
        exact ⟨Nat.zero_lt_of_lt horigin, origin, horigin, hrun⟩
      · rintro ⟨-, origin, horigin, hrun⟩
        exact ⟨origin, horigin, hrun⟩
  | start =>
      simp only [Anchor.instructions, List.cons_append, List.nil_append, Anchor.Admits,
        exists_eq_left]
      rw [accepts_head_cons_iff, hsize]
  | host =>
      simp only [Anchor.instructions, List.cons_append, List.nil_append]
      rw [accepts_head_cons_iff, hsize, run_cons_iff (by decide)]
      simp only [move?_skipScheme_eq_some_iff_admits]

end Program

/-- Behind an anchor that no bar follows stands no longer anchor. -/
theorem anchor_longest_of_head?_ne {anchor other : Anchor} {text : List UInt8}
    (hbar : text.head? ≠ some Byte.bar) (hother : other.bytes <+: anchor.bytes ++ text) :
    other.bytes.length ≤ anchor.bytes.length := by
  have hnone : ∀ others, ¬ Byte.bar :: others <+: text := by
    rintro others ⟨rest, rfl⟩
    exact hbar rfl
  cases other <;> cases anchor <;> simp_all [Anchor.bytes]

namespace Line.IsPlain

theorem opens {line : String} (hplain : Line.IsPlain line) {pattern : Pattern}
    (htext : utf8 line = pattern.bytes)
    (hwritable : ∀ token ∈ pattern.tokens, token.IsWritable)
    (htail : pattern.tail = true → pattern.tokens ≠ []) :
    Pattern.Lead.Opens ⟨false, pattern.anchor, pattern.tokens⟩ (utf8 line)
      (if pattern.tail then [Byte.bar] else []) where
  text_eq := by
    simp only [htext, Pattern.bytes, Pattern.Lead.bytes, Pattern.Lead.markBytes,
      Bool.false_eq_true, if_false, List.nil_append]
  tokens_writable := hwritable
  mark_taken := by
    intro hmark
    have hascii : ∀ byte ∈ utf8 line, byte < 0x80 := by
      rw [htext]
      exact Pattern.byte_lt_of_mem_bytes hwritable
    have hchars := hmark.map Char.ofUInt8
    rw [← toList_eq_map_of_ascii hascii] at hchars
    exact absurd hchars hplain.not_exception
  anchor_longest := by
    intro other hother
    rw [htext, Pattern.bytes, List.append_assoc] at hother
    apply anchor_longest_of_head?_ne _ hother
    intro hhead
    cases htokens : pattern.tokens with
    | nil => cases htail : pattern.tail <;> simp_all
    | cons token tokens =>
        obtain ⟨byte, bytes, hbytes⟩ := List.exists_cons_of_ne_nil token.bytes_ne_nil
        rw [htokens, List.flatMap_cons, hbytes] at hhead
        have hbyte := Token.bytes_bounds hwritable byte (by simp [htokens, hbytes])
        exact hbyte.2 (Option.some.inj hhead)

/-- A plain line that is the text of a pattern in normal form has a rule, and the
rule accepts a query if the instructions behind the anchor succeed from a place
where a match may start. -/
theorem exists_rule {line : String} (hplain : Line.IsPlain line) (hne : line ≠ "")
    (hdollar : Byte.dollar ∉ utf8 line) (hnormal : Pattern.IsNormal line.toList)
    {pattern : Pattern} (htext : utf8 line = pattern.bytes)
    (hwritable : ∀ token ∈ pattern.tokens, token.IsWritable)
    (htail : pattern.tail = true → pattern.tokens ≠ [])
    (hsize : (pattern.instructions false).length ≤ instructionLimit) :
    ∃ rule, compileLine line = .ok (some rule) ∧ ∀ mode query,
      rule.accepts mode query = true ↔
        query.uri ≠ "" ∧ ∃ origin, pattern.anchor.Admits (utf8 query.uri) origin ∧
          run query.uri.toByteArray (pattern.body false) origin = true := by
  have hcompile : Pattern.compile line Flags.empty =
      .ok (pattern.instructions false) := by
    rw [Pattern.compile_eq_ok_iff]
    exact ⟨_, pattern.tail, hplain.opens htext hwritable htail,
      by simp [Pattern.Lead.pattern], hsize⟩
  have hchar : '$' ∉ line.toList := by
    have hascii : Byte.dollar < 0x80 := by decide
    exact fun h => hdollar ((mem_utf8_iff hascii).2 h)
  refine ⟨_, hplain.compileLine_eq hne hchar hnormal hcompile, fun mode query => ?_⟩
  rw [Rule.accepts_assemble_nil]
  exact Program.accepts_instructions_iff

/-- A plain line of an anchor and plain tokens has a rule. -/
theorem exists_rule_of_tokens {line : String} (hplain : Line.IsPlain line)
    (hne : line ≠ "") {anchor : Anchor} {tokens : List Token}
    (htext : utf8 line = anchor.bytes ++ tokens.flatMap Token.bytes)
    (htokens : ∀ token ∈ tokens, token.atom.IsPlain)
    (hseek : ∀ atom, tokens.head? ≠ some (.seek atom))
    (hsize : anchor.instructions.length + tokens.length + 1 ≤ instructionLimit) :
    ∃ rule, compileLine line = .ok (some rule) ∧ ∀ mode query,
      rule.accepts mode query = true ↔
        query.uri ≠ "" ∧ ∃ origin, anchor.Admits (utf8 query.uri) origin ∧
          run query.uri.toByteArray
            (tokens.map (Token.instruction false) ++ [Instruction.accept]) origin = true := by
  have hdollar : Byte.dollar ∉ utf8 line := by
    rw [htext]
    exact fun hbyte => (bytes_bounds_of_isPlain htokens anchor _ hbyte).2 rfl
  have hpattern : utf8 line = Pattern.bytes ⟨anchor, tokens, false⟩ := by
    simp [Pattern.bytes, htext]
  have hwritable : ∀ token ∈ tokens, token.IsWritable :=
    fun token htoken => Token.isWritable_of_isPlain (htokens token htoken)
  exact hplain.exists_rule hne hdollar (isNormal_of_isPlain htokens htext hseek) hpattern
    hwritable (by simp) (by simpa [Pattern.instructions, Nat.add_assoc] using hsize)

end Line.IsPlain

end UrlFilter
