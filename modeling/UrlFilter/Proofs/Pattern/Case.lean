/-
The case of letters in patterns.

Where the case of letters does not count, a pattern is compiled as if its literals were small
letters.  Reading looks for marks and for bytes of a URL only, and neither depends on the case of
a letter.  So the reader goes through a text and through its small letters in step: it answers
with the pattern and with its small form, or with one and the same fault.
-/
import UrlFilter.Proofs.Pattern.Grammar
import UrlFilter.Proofs.Pattern.NormalForm
import UrlFilter.Proofs.Text.Lower

namespace UrlFilter

/-- The atom with a small letter in place of a capital. -/
def Atom.lower : Atom → Atom
  | separator => separator
  | literal byte => literal (lowerByte byte)

/-- The token with its atom made small. -/
def Token.lower : Token → Token
  | here atom => here atom.lower
  | seek atom => seek atom.lower

/-- The pattern with all its literals made small. -/
def Pattern.lower (pattern : Pattern) : Pattern :=
  { pattern with tokens := pattern.tokens.map Token.lower }

theorem Atom.byte_lower (atom : Atom) : atom.lower.byte = lowerByte atom.byte := by
  cases atom with
  | separator => rfl
  | literal byte => rfl

theorem Atom.operand_lower (atom : Atom) : atom.lower.operand true = atom.operand false := by
  cases atom with
  | separator => rfl
  | literal byte => rfl

theorem Atom.lower_lower (atom : Atom) : atom.lower.lower = atom.lower := by
  cases atom with
  | separator => rfl
  | literal byte => exact congrArg literal (lowerByte_lowerByte byte)

/-- Which atom a byte stands for is up to its letter, and its case is that of the byte. -/
theorem Atom.ofByte?_lowerByte (byte : UInt8) :
    ofByte? (lowerByte byte) = (ofByte? byte).map lower := by
  revert byte
  apply forall_byte
  decide +kernel

/-- A byte that stands for nothing is no letter. -/
theorem Atom.lowerByte_of_ofByte?_eq_none {byte : UInt8} (h : ofByte? byte = none) :
    lowerByte byte = byte := by
  revert byte
  apply forall_byte
  decide +kernel

theorem Token.bytes_lower (token : Token) : token.lower.bytes = token.bytes.map lowerByte := by
  cases token with
  | here atom => exact congrArg (fun byte => [byte]) atom.byte_lower
  | seek atom => exact congrArg (fun byte => [Byte.star, byte]) atom.byte_lower

theorem Token.instruction_lower (token : Token) :
    token.lower.instruction true = token.instruction false := by
  cases token with
  | here atom => exact congrArg (Instruction.mk .char) atom.operand_lower
  | seek atom => exact congrArg (Instruction.mk .skipTo) atom.operand_lower

theorem Token.lower_lower (token : Token) : token.lower.lower = token.lower := by
  cases token with
  | here atom => exact congrArg here atom.lower_lower
  | seek atom => exact congrArg seek atom.lower_lower

namespace Pattern

variable (pattern : Pattern)

theorem bytes_lower : pattern.lower.bytes = pattern.bytes.map lowerByte := by
  have hanchor : pattern.anchor.bytes.map lowerByte = pattern.anchor.bytes := by
    cases pattern.anchor <;> rfl
  have htail : (if pattern.tail then [Byte.bar] else []).map lowerByte =
      if pattern.tail then [Byte.bar] else [] := by
    cases pattern.tail <;> rfl
  have htokens : (pattern.tokens.map Token.lower).flatMap Token.bytes =
      (pattern.tokens.flatMap Token.bytes).map lowerByte := by
    simp only [List.flatMap_map, List.map_flatMap, Token.bytes_lower]
  rw [bytes, bytes, List.map_append, List.map_append, hanchor, htail, ← htokens]
  rfl

/-- A pattern whose case does not count has the instructions of its small form. -/
theorem instructions_lower : pattern.lower.instructions true = pattern.instructions false := by
  have htokens : (pattern.tokens.map Token.lower).map (Token.instruction true) =
      pattern.tokens.map (Token.instruction false) := by
    simp only [List.map_map, Function.comp_def, Token.instruction_lower]
  rw [instructions, instructions, ← htokens]
  rfl

theorem lower_lower : pattern.lower.lower = pattern.lower := by
  simp only [lower, List.map_map, Function.comp_def, Token.lower_lower]

/-- The tokens of the small letters of a text are those of the text, made small. -/
theorem readTokens_map_lowerByte (room offset : Nat) (text : List UInt8) :
    readTokens room offset (text.map lowerByte) =
      (readTokens room offset text).map
        fun (tokens, tail) => (tokens.map Token.lower, tail) := by
  have hstar : ∀ byte, lowerByte byte = Byte.star ↔ byte = Byte.star :=
    fun _ => lowerByte_eq_iff (by decide)
  have hbar : ∀ byte, lowerByte byte = Byte.bar ↔ byte = Byte.bar :=
    fun _ => lowerByte_eq_iff (by decide)
  induction room generalizing offset text with
  | zero =>
      cases text with
      | nil => rfl
      | cons byte rest => rfl
  | succ room ih =>
      cases text with
      | nil => rfl
      | cons byte rest =>
          by_cases hwildcard : byte = Byte.star
          · cases rest with
            | nil =>
                simp only [List.map_cons, List.map_nil, readTokens, hstar, if_pos hwildcard,
                  Except.map]
            | cons next rest =>
                simp only [List.map_cons, readTokens, hstar, if_pos hwildcard,
                  Atom.ofByte?_lowerByte]
                cases hatom : Atom.ofByte? next with
                | none =>
                    rw [Atom.lowerByte_of_ofByte?_eq_none hatom]
                    rfl
                | some atom =>
                    simp only [Option.map_some, ih]
                    cases readTokens room (offset + 2) rest <;> rfl
          · by_cases hend : byte = Byte.bar
            · simp only [List.map_cons, readTokens, hstar, hbar, if_neg hwildcard, if_pos hend,
                List.map_eq_nil_iff]
              rw [(hbar byte).2 hend, hend]
              split <;> rfl
            · simp only [List.map_cons, readTokens, hstar, hbar, if_neg hwildcard, if_neg hend,
                Atom.ofByte?_lowerByte]
              cases hatom : Atom.ofByte? byte with
              | none =>
                  rw [Atom.lowerByte_of_ofByte?_eq_none hatom]
                  rfl
              | some atom =>
                  simp only [Option.map_some, ih]
                  cases readTokens room (offset + 1) rest <;> rfl

theorem dropExceptionMark_map_lowerByte (text : List UInt8) :
    dropExceptionMark (text.map lowerByte) =
      ((dropExceptionMark text).1, (dropExceptionMark text).2.map lowerByte) := by
  rw [dropExceptionMark, dropExceptionMark, isPrefixOf?_map_lowerByte (by decide)]
  cases exceptionMark.isPrefixOf? text <;> rfl

theorem takeAnchor_map_lowerByte (text : List UInt8) :
    takeAnchor (text.map lowerByte) =
      ((takeAnchor text).1, (takeAnchor text).2.map lowerByte) := by
  rw [takeAnchor, takeAnchor, isPrefixOf?_map_lowerByte (by decide),
    isPrefixOf?_map_lowerByte (by decide)]
  cases Anchor.host.bytes.isPrefixOf? text with
  | some rest => rfl
  | none => cases Anchor.start.bytes.isPrefixOf? text <;> rfl

/-- The small letters of a text are read as the small form of its pattern, or with its fault. -/
theorem read_map_lowerByte (text : List UInt8) :
    read (text.map lowerByte) = (read text).map lower := by
  simp only [read, dropExceptionMark_map_lowerByte, takeAnchor_map_lowerByte,
    readTokens_map_lowerByte]
  cases readTokens _ _ _ <;> rfl

theorem read_map_lowerByte_of_read {text : List UInt8} (hread : read text = .ok pattern) :
    read (text.map lowerByte) = .ok pattern.lower := by
  rw [read_map_lowerByte, hread]
  rfl

/-- Compiling a text whose case does not count is compiling its small letters as they are. -/
theorem compile_toLower {cased uncased : Flags} (hcased : cased.contains .matchCase = true)
    (huncased : uncased.contains .matchCase = false) (text : String) :
    compile text.toLower cased = compile text uncased := by
  rw [compile, compile, utf8_toLower, read_map_lowerByte, hcased, huncased]
  cases read (utf8 text) with
  | error fault => rfl
  | ok pattern => exact congrArg Except.ok pattern.instructions_lower

section Normal

variable (text : List Char)

theorem collapseStars_map_toLower :
    collapseStars (text.map Char.toLower) = (collapseStars text).map Char.toLower := by
  have hstar : ∀ c : Char, c.toLower = '*' ↔ c = '*' := fun _ => toLower_eq_iff (by decide)
  induction text with
  | nil => rfl
  | cons c text ih =>
      have hhead : ((collapseStars text).map Char.toLower).head? = some '*' ↔
          (collapseStars text).head? = some '*' := by
        cases collapseStars text with
        | nil => simp
        | cons first rest => simp [hstar first]
      rw [List.map_cons, collapseStars_cons, collapseStars_cons, ih]
      simp only [hstar, hhead]
      split <;> rfl

theorem stripFront_map_toLower {front : List Char} (hmarks : front.any Char.isAlpha = false) :
    stripFront front (text.map Char.toLower) = (stripFront front text).map Char.toLower := by
  rw [stripFront, stripFront, isPrefixOf?_map_toLower hmarks]
  cases front.isPrefixOf? text <;> rfl

theorem stripBack_map_toLower {back : List Char} (hmarks : back.any Char.isAlpha = false) :
    stripBack back (text.map Char.toLower) = (stripBack back text).map Char.toLower := by
  rw [stripBack, stripBack, isSuffixOf?_map_toLower hmarks]
  cases back.isSuffixOf? text <;> rfl

theorem dropTailAfterSeparator_map_toLower :
    dropTailAfterSeparator (text.map Char.toLower) =
      (dropTailAfterSeparator text).map Char.toLower := by
  rw [dropTailAfterSeparator, dropTailAfterSeparator, isSuffixOf?_map_toLower (by decide)]
  cases ['^', '|'].isSuffixOf? text with
  | none => rfl
  | some front => simp

/-- The edges that normalizing removes have no letters. -/
theorem normalizeChars_map_toLower :
    normalizeChars (text.map Char.toLower) = (normalizeChars text).map Char.toLower := by
  rw [normalizeChars, collapseStars_map_toLower, stripBack_map_toLower _ (by decide),
    stripFront_map_toLower _ (by decide), stripBack_map_toLower _ (by decide),
    stripFront_map_toLower _ (by decide), dropTailAfterSeparator_map_toLower, normalizeChars]

end Normal

end Pattern

end UrlFilter
