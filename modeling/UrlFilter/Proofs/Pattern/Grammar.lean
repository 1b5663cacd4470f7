/-
The grammar of pattern texts.

A pattern text is the mark of an exception or not, then the longest anchor, then
tokens, then the end anchor or not.  The reader takes tokens while the text goes
on with one and the program has room, so every text falls under one of three
cases, and each case has its own answer: the text is used up, it goes on with
something that is no token, or the room is.
-/
import UrlFilter.Pattern.Reader
import Mathlib.Data.List.Infix

namespace UrlFilter

/-- Can the atom be written?  A literal has to be a byte of a URL. -/
def Atom.IsWritable : Atom → Prop
  | separator => True
  | literal byte => isUrlByte byte = true

/-- Can the token be written so that it is read as itself?  A wildcard is read as
a literal only behind another wildcard. -/
def Token.IsWritable : Token → Prop
  | here atom => atom.IsWritable ∧ atom ≠ .literal Byte.star
  | seek atom => atom.IsWritable

theorem Atom.ofByte?_eq_none_iff {byte : UInt8} :
    Atom.ofByte? byte = none ↔ byte ≠ Byte.caret ∧ isUrlByte byte = false := by
  unfold Atom.ofByte?
  split <;> simp_all

theorem Atom.isWritable_of_ofByte? {byte : UInt8} {atom : Atom}
    (h : Atom.ofByte? byte = some atom) : atom.IsWritable := by
  unfold Atom.ofByte? at h
  split at h
  · rw [← Option.some.inj h]
    trivial
  · split at h
    · rename_i hurl
      rw [← Option.some.inj h]
      exact hurl
    · contradiction

/-- Reading the byte of an atom gives the atom back. -/
theorem Atom.ofByte?_byte {atom : Atom} (hatom : atom.IsWritable) :
    Atom.ofByte? atom.byte = some atom := by
  cases atom with
  | separator => rfl
  | literal byte =>
      have hcaret : byte ≠ Byte.caret := by
        rintro rfl
        exact absurd hatom (show ¬ isUrlByte Byte.caret = true by decide)
      have hurl : isUrlByte byte = true := hatom
      simp [Atom.ofByte?, Atom.byte, hcaret, hurl]

theorem Atom.byte_ne_bar {atom : Atom} (hatom : atom.IsWritable) :
    atom.byte ≠ Byte.bar := by
  intro hbar
  have hread := Atom.ofByte?_byte hatom
  rw [hbar, Atom.ofByte?_eq_none_iff.2 (by decide)] at hread
  contradiction

theorem Token.byte_ne_star {atom : Atom} (htoken : (Token.here atom).IsWritable) :
    atom.byte ≠ Byte.star := by
  cases atom with
  | separator => decide
  | literal byte =>
      intro hstar
      exact htoken.2 (congrArg Atom.literal hstar)

theorem Token.bytes_ne_nil (token : Token) : token.bytes ≠ [] := by
  cases token <;> simp [Token.bytes]

namespace Pattern

/-- How a text begins: with the mark of an exception or not, an anchor and
tokens. -/
structure Lead where
  marked : Bool
  anchor : Anchor
  tokens : List Token
  deriving DecidableEq, Repr

namespace Lead

/-- The mark of an exception if the lead has it. -/
def markBytes (lead : Lead) : List UInt8 :=
  if lead.marked then exceptionMark else []

/-- The text of a lead. -/
def bytes (lead : Lead) : List UInt8 :=
  lead.markBytes ++ lead.anchor.bytes ++ lead.tokens.flatMap Token.bytes

/-- The number of instructions that a lead takes. -/
def emitted (lead : Lead) : Nat :=
  lead.anchor.instructions.length + lead.tokens.length

/-- The pattern of a lead that only the end anchor may follow. -/
def pattern (lead : Lead) (tail : Bool) : Pattern :=
  ⟨lead.anchor, lead.tokens, tail⟩

/-- A text begins with a lead and goes on with `rest`.  The mark and the anchor
are taken greedily. -/
structure Opens (lead : Lead) (text rest : List UInt8) : Prop where
  text_eq : text = lead.bytes ++ rest
  tokens_writable : ∀ token ∈ lead.tokens, token.IsWritable
  mark_taken : exceptionMark <+: text → lead.marked = true
  anchor_longest : ∀ anchor : Anchor, lead.markBytes ++ anchor.bytes <+: text →
    anchor.bytes.length ≤ lead.anchor.bytes.length

end Lead

/-- A text at whose start stands no token, although the pattern does not end
there.  The byte at fault stands `delay` bytes into the text. -/
inductive Stuck : List UInt8 → Nat → Prop
  /-- A byte that stands for nothing, or a bar that is not the last byte. -/
  | stray {byte : UInt8} {rest : List UInt8} : byte ≠ Byte.caret →
      isUrlByte byte = false → (byte = Byte.bar → rest ≠ []) → Stuck (byte :: rest) 0
  /-- A byte that no wildcard can look for. -/
  | behindStar {byte : UInt8} {rest : List UInt8} : byte ≠ Byte.caret →
      isUrlByte byte = false → Stuck (Byte.star :: byte :: rest) 1
  /-- A wildcard with nothing behind it. -/
  | danglingStar : Stuck [Byte.star] 1

/-- A text starts with a token or stops there. -/
theorem exists_token_or_stuck (text : List UInt8) :
    (∃ (token : Token) (behind : List UInt8), token.IsWritable ∧
      text = token.bytes ++ behind) ∨
      text = [] ∨ text = [Byte.bar] ∨ ∃ delay, Stuck text delay := by
  match text with
  | [] => exact Or.inr (Or.inl rfl)
  | byte :: rest =>
      by_cases hstar : byte = Byte.star
      · subst hstar
        match rest with
        | [] => exact Or.inr (Or.inr (Or.inr ⟨1, .danglingStar⟩))
        | next :: rest =>
            cases hatom : Atom.ofByte? next with
            | none =>
                have hnext := Atom.ofByte?_eq_none_iff.1 hatom
                exact Or.inr (Or.inr (Or.inr ⟨1, .behindStar hnext.1 hnext.2⟩))
            | some atom =>
                refine Or.inl ⟨.seek atom, rest, Atom.isWritable_of_ofByte? hatom, ?_⟩
                simp [Token.bytes, Atom.byte_of_ofByte? hatom]
      · cases hatom : Atom.ofByte? byte with
        | none =>
            have hbyte := Atom.ofByte?_eq_none_iff.1 hatom
            by_cases hend : byte = Byte.bar ∧ rest = []
            · exact Or.inr (Or.inr (Or.inl (by rw [hend.1, hend.2])))
            · exact Or.inr (Or.inr (Or.inr ⟨0, .stray hbyte.1 hbyte.2
                fun hbar hrest => hend ⟨hbar, hrest⟩⟩))
        | some atom =>
            have hbyte := Atom.byte_of_ofByte? hatom
            refine Or.inl ⟨.here atom, rest,
              ⟨Atom.isWritable_of_ofByte? hatom, ?_⟩, ?_⟩
            · rintro rfl
              exact hstar hbyte.symm
            · simp [Token.bytes, hbyte]

/-- A text goes on with tokens as long as it can. -/
theorem exists_tokens (text : List UInt8) :
    ∃ (tokens : List Token) (rest : List UInt8),
      text = tokens.flatMap Token.bytes ++ rest ∧
        (∀ token ∈ tokens, token.IsWritable) ∧
        (rest = [] ∨ rest = [Byte.bar] ∨ ∃ delay, Stuck rest delay) := by
  induction hlength : text.length using Nat.strongRecOn generalizing text with
  | ind length ih =>
      rcases exists_token_or_stuck text with ⟨token, behind, htoken, htext⟩ | hstop
      · have hpos : 0 < token.bytes.length := List.length_pos_iff.2 token.bytes_ne_nil
        have hshorter : behind.length < length := by
          rw [← hlength, htext, List.length_append]
          omega
        obtain ⟨tokens, rest, hbehind, hwritable, hrest⟩ := ih _ hshorter behind rfl
        refine ⟨token :: tokens, rest, ?_, ?_, hrest⟩
        · rw [htext, hbehind, List.flatMap_cons, List.append_assoc]
        · intro other hother
          rcases List.mem_cons.1 hother with rfl | hother
          · exact htoken
          · exact hwritable other hother
      · exact ⟨[], text, rfl, by simp, hstop⟩

/-- Reading writable tokens puts them in front of what is read behind them. -/
theorem readTokens_append {tokens : List Token}
    (htokens : ∀ token ∈ tokens, token.IsWritable) (room offset : Nat)
    (rest : List UInt8) :
    readTokens (room + tokens.length) offset (tokens.flatMap Token.bytes ++ rest) =
      (readTokens room (offset + (tokens.flatMap Token.bytes).length) rest).map
        fun (read, tail) => (tokens ++ read, tail) := by
  induction tokens generalizing offset with
  | nil =>
      simp only [List.length_nil, Nat.add_zero, List.flatMap_nil, List.nil_append]
      cases readTokens room offset rest <;> rfl
  | cons token tokens ih =>
      have htoken := htokens token List.mem_cons_self
      have hbehind := ih (fun other hother =>
        htokens other (List.mem_cons_of_mem token hother))
      cases token with
      | here atom =>
          have hbar := Atom.byte_ne_bar htoken.1
          have hstar := Token.byte_ne_star htoken
          simp only [List.length_cons, List.flatMap_cons, Token.bytes,
            List.cons_append, List.nil_append, ← Nat.add_assoc, readTokens, hbar, hstar,
            if_false, Atom.ofByte?_byte htoken.1, hbehind]
          rw [show offset + 1 + (tokens.flatMap Token.bytes).length =
            offset + (tokens.flatMap Token.bytes).length + 1 by omega]
          cases readTokens room _ rest <;> rfl
      | seek atom =>
          simp only [List.length_cons, List.flatMap_cons, Token.bytes,
            List.cons_append, List.nil_append, ← Nat.add_assoc, readTokens, if_true,
            Atom.ofByte?_byte htoken, hbehind]
          rw [show offset + 2 + (tokens.flatMap Token.bytes).length =
            offset + (tokens.flatMap Token.bytes).length + 1 + 1 by omega]
          cases readTokens room _ rest <;> rfl

theorem readTokens_bar (room offset : Nat) :
    readTokens (room + 1) offset [Byte.bar] = .ok ([], true) := rfl

/-- A byte at fault is answered with its place and value. -/
theorem readTokens_stuck {rest : List UInt8} {delay : Nat} (hstuck : Stuck rest delay)
    (room offset : Nat) :
    readTokens (room + 1) offset rest =
      .error (.invalidByte (offset + delay) (rest[delay]?.getD terminator)) := by
  cases hstuck with
  | @stray byte rest hcaret hurl hbar =>
      have hatom := Atom.ofByte?_eq_none_iff.2 ⟨hcaret, hurl⟩
      have hstar : byte ≠ Byte.star := by
        rintro rfl
        exact absurd hurl (by decide)
      by_cases hbyte : byte = Byte.bar
      · have hrest := hbar hbyte
        subst hbyte
        simp only [readTokens, if_neg hstar, if_neg hrest, if_true]
        rfl
      · simp [readTokens, hstar, hbyte, hatom]
  | behindStar hcaret hurl =>
      have hatom := Atom.ofByte?_eq_none_iff.2 ⟨hcaret, hurl⟩
      simp [readTokens, hatom]
  | danglingStar => simp [readTokens]

theorem readTokens_full {rest : List UInt8} (hrest : rest ≠ []) (offset : Nat) :
    readTokens 0 offset rest = .error .tooLong := by
  obtain ⟨byte, rest, rfl⟩ := List.exists_cons_of_ne_nil hrest
  rfl

/-- The anchor that is taken is the longest one in front of the text. -/
theorem takeAnchor_spec (text : List UInt8) :
    text = (takeAnchor text).1.bytes ++ (takeAnchor text).2 ∧
      ∀ anchor : Anchor, anchor.bytes <+: text →
        anchor.bytes.length ≤ (takeAnchor text).1.bytes.length := by
  have hlonger : ∀ anchor : Anchor, anchor.bytes.isPrefixOf? text = none →
      ¬ anchor.bytes <+: text := by
    rintro anchor hnone ⟨rest, hrest⟩
    rw [List.isPrefixOf?_eq_some_iff_append_eq.2 hrest] at hnone
    contradiction
  unfold takeAnchor
  split
  · rename_i rest hhost
    refine ⟨(List.isPrefixOf?_eq_some_iff_append_eq.1 hhost).symm, fun anchor _ => ?_⟩
    cases anchor <;> simp [Anchor.bytes]
  · rename_i hhost
    split
    · rename_i rest hstart
      refine ⟨(List.isPrefixOf?_eq_some_iff_append_eq.1 hstart).symm,
        fun anchor hanchor => ?_⟩
      cases anchor with
      | host => exact absurd hanchor (hlonger .host hhost)
      | start => exact Nat.le_refl _
      | anywhere => exact Nat.zero_le _
    · rename_i hstart
      refine ⟨rfl, fun anchor hanchor => ?_⟩
      cases anchor with
      | host => exact absurd hanchor (hlonger .host hhost)
      | start => exact absurd hanchor (hlonger .start hstart)
      | anywhere => exact Nat.le_refl _

theorem anchor_eq_of_length_eq {left right : Anchor}
    (h : left.bytes.length = right.bytes.length) : left = right := by
  cases left <;> cases right <;> first | rfl | exact absurd h (by decide)

/-- No other anchor than the longest one is taken. -/
theorem takeAnchor_append {anchor : Anchor} {rest : List UInt8}
    (hlongest : ∀ other : Anchor, other.bytes <+: anchor.bytes ++ rest →
      other.bytes.length ≤ anchor.bytes.length) :
    takeAnchor (anchor.bytes ++ rest) = (anchor, rest) := by
  obtain ⟨htext, htaken⟩ := takeAnchor_spec (anchor.bytes ++ rest)
  have hle := hlongest _ ⟨_, htext.symm⟩
  have hge := htaken anchor (List.prefix_append anchor.bytes rest)
  have hanchor : (takeAnchor (anchor.bytes ++ rest)).1 = anchor :=
    anchor_eq_of_length_eq (Nat.le_antisymm hle hge)
  rw [hanchor] at htext
  exact Prod.ext hanchor (List.append_cancel_left htext).symm

namespace Lead

/-- A lead is taken off the text that it opens, up to its tokens. -/
theorem Opens.taken {lead : Lead} {text rest : List UInt8}
    (hopens : lead.Opens text rest) :
    dropExceptionMark text =
        (lead.markBytes.length,
          lead.anchor.bytes ++ (lead.tokens.flatMap Token.bytes ++ rest)) ∧
      takeAnchor (lead.anchor.bytes ++ (lead.tokens.flatMap Token.bytes ++ rest)) =
        (lead.anchor, lead.tokens.flatMap Token.bytes ++ rest) := by
  have htext : text = lead.markBytes ++
      (lead.anchor.bytes ++ (lead.tokens.flatMap Token.bytes ++ rest)) := by
    rw [hopens.text_eq, bytes]
    simp only [List.append_assoc]
  constructor
  · unfold dropExceptionMark
    cases hmarked : lead.marked with
    | true =>
        have hmark : lead.markBytes = exceptionMark := by simp [markBytes, hmarked]
        rw [hmark] at htext ⊢
        rw [List.isPrefixOf?_eq_some_iff_append_eq.2 htext.symm]
    | false =>
        have hmark : lead.markBytes = [] := by simp [markBytes, hmarked]
        rw [hmark, List.nil_append] at htext
        have hnone : exceptionMark.isPrefixOf? text = none := by
          rw [Option.eq_none_iff_forall_ne_some]
          intro behind hbehind
          have htaken := hopens.mark_taken
            ⟨behind, List.isPrefixOf?_eq_some_iff_append_eq.1 hbehind⟩
          rw [hmarked] at htaken
          contradiction
        rw [hnone, hmark, ← htext]
        rfl
  · apply takeAnchor_append
    intro other hother
    apply hopens.anchor_longest other
    rw [htext]
    exact (List.prefix_append_right_inj lead.markBytes).2 hother

/-- Reading a text that opens with a lead is reading what follows in the room that
the lead leaves. -/
theorem Opens.read_eq {lead : Lead} {text rest : List UInt8}
    (hopens : lead.Opens text rest) {room : Nat}
    (hroom : room + lead.emitted = instructionLimit - 1) :
    read text = (readTokens room lead.bytes.length rest).map
      fun (tokens, tail) => ⟨lead.anchor, lead.tokens ++ tokens, tail⟩ := by
  have hleft : instructionLimit - 1 - lead.anchor.instructions.length =
      room + lead.tokens.length := by
    rw [← hroom, emitted]
    omega
  have hlength : lead.markBytes.length + lead.anchor.bytes.length +
      (lead.tokens.flatMap Token.bytes).length = lead.bytes.length := by
    simp only [bytes, List.length_append]
  simp only [read, hopens.taken.1, hopens.taken.2, hleft,
    readTokens_append hopens.tokens_writable, hlength]
  cases readTokens room lead.bytes.length rest <;> rfl

/-- A lead stays one when only its first tokens are kept. -/
theorem Opens.take {lead : Lead} {text rest : List UInt8}
    (hopens : lead.Opens text rest) (count : Nat) :
    Opens { lead with tokens := lead.tokens.take count } text
      ((lead.tokens.drop count).flatMap Token.bytes ++ rest) where
  text_eq := by
    have hsplit := congrArg (List.flatMap Token.bytes)
      (List.take_append_drop count lead.tokens)
    rw [List.flatMap_append] at hsplit
    rw [hopens.text_eq, bytes, ← hsplit]
    simp only [bytes, markBytes, List.append_assoc]
  tokens_writable := fun token htoken =>
    hopens.tokens_writable token (List.mem_of_mem_take htoken)
  mark_taken := hopens.mark_taken
  anchor_longest := hopens.anchor_longest

/-- Every text opens with a lead behind which stands no further token. -/
theorem exists_opens (text : List UInt8) :
    ∃ (lead : Lead) (rest : List UInt8), lead.Opens text rest ∧
      (rest = [] ∨ rest = [Byte.bar] ∨ ∃ delay, Stuck rest delay) := by
  let marked := decide (exceptionMark <+: text)
  obtain ⟨body, hbody⟩ : ∃ body, text =
      (if marked then exceptionMark else []) ++ body := by
    by_cases hmark : exceptionMark <+: text
    · obtain ⟨body, hbody⟩ := hmark
      exact ⟨body, by simp [marked, ← hbody]⟩
    · exact ⟨text, by simp [marked, hmark]⟩
  obtain ⟨hanchor, hlongest⟩ := takeAnchor_spec body
  obtain ⟨tokens, rest, htokens, hwritable, hrest⟩ := exists_tokens (takeAnchor body).2
  refine ⟨⟨marked, (takeAnchor body).1, tokens⟩, rest, ⟨?_, hwritable, ?_, ?_⟩, hrest⟩
  · rw [hbody, bytes, markBytes, List.append_assoc, List.append_assoc, ← htokens,
      ← hanchor]
  · intro hmark
    simpa [marked] using hmark
  · intro anchor hfront
    apply hlongest
    rw [hbody] at hfront
    exact (List.prefix_append_right_inj _).1 hfront

/-- The instructions of a lead's pattern: those emitted for the lead, one for the
end anchor, and acceptance. -/
theorem length_instructions (lead : Lead) (matchCase tail : Bool) :
    ((lead.pattern tail).instructions matchCase).length =
      lead.emitted + (if tail then 1 else 0) + 1 := by
  cases tail <;>
    simp only [instructions, pattern, emitted, List.length_append, List.length_map,
      List.length_cons, List.length_nil, if_true, if_false, Bool.false_eq_true]

/-- A text that a lead uses up, or all but the end anchor, is a pattern. -/
theorem Opens.read_complete {lead : Lead} {text : List UInt8} {tail : Bool}
    (hopens : lead.Opens text (if tail then [Byte.bar] else []))
    (hsize : lead.emitted + (if tail then 1 else 0) + 1 ≤ instructionLimit) :
    read text = .ok (lead.pattern tail) := by
  cases tail with
  | false =>
      simp only [Bool.false_eq_true, if_false] at hopens hsize
      have hroom : instructionLimit - 1 - lead.emitted + lead.emitted =
          instructionLimit - 1 := by
        omega
      rw [hopens.read_eq hroom]
      simp [readTokens, Except.map, pattern]
  | true =>
      simp only [if_true] at hopens hsize
      have hroom : instructionLimit - 2 - lead.emitted + 1 + lead.emitted =
          instructionLimit - 1 := by
        unfold instructionLimit at *
        omega
      rw [hopens.read_eq hroom, readTokens_bar]
      simp [Except.map, pattern]

/-- A text that goes on with a byte at fault, while there is room, is answered
with that byte. -/
theorem Opens.read_stuck {lead : Lead} {text rest : List UInt8} {delay : Nat}
    (hopens : lead.Opens text rest) (hstuck : Stuck rest delay)
    (hroom : lead.emitted < instructionLimit - 1) :
    read text = .error (.invalidByte (lead.bytes.length + delay)
      (text[lead.bytes.length + delay]?.getD terminator)) := by
  have hleft : instructionLimit - 2 - lead.emitted + 1 + lead.emitted =
      instructionLimit - 1 := by
    omega
  have hbyte : text[lead.bytes.length + delay]? = rest[delay]? := by
    rw [hopens.text_eq, List.getElem?_append_right (by omega)]
    simp
  rw [hopens.read_eq hleft, readTokens_stuck hstuck, hbyte]
  rfl

/-- A text that goes on when the room is used up is too long. -/
theorem Opens.read_full {lead : Lead} {text rest : List UInt8}
    (hopens : lead.Opens text rest) (hrest : rest ≠ [])
    (hfull : lead.emitted = instructionLimit - 1) :
    read text = .error .tooLong := by
  have hroom : 0 + lead.emitted = instructionLimit - 1 := by
    omega
  rw [hopens.read_eq hroom, readTokens_full hrest]
  rfl

/-- A lead with more tokens than there is room for has a shorter one that just
fills the room. -/
theorem Opens.exists_full {lead : Lead} {text rest : List UInt8}
    (hopens : lead.Opens text rest) (hover : instructionLimit - 1 < lead.emitted) :
    ∃ (full : Lead) (behind : List UInt8), full.Opens text behind ∧ behind ≠ [] ∧
      full.emitted = instructionLimit - 1 := by
  let count := instructionLimit - 1 - lead.anchor.instructions.length
  have hanchor : lead.anchor.instructions.length ≤ 2 := by
    cases lead.anchor <;> decide
  have hcount : count < lead.tokens.length := by
    simp only [count, emitted, instructionLimit] at *
    omega
  refine ⟨_, _, hopens.take count, ?_, ?_⟩
  · obtain ⟨token, others, hdrop⟩ :=
      List.exists_cons_of_ne_nil (List.drop_eq_nil_iff.not.2 (Nat.not_le.2 hcount))
    rw [hdrop, List.flatMap_cons]
    simp [token.bytes_ne_nil]
  · rw [emitted, List.length_take, Nat.min_eq_left (Nat.le_of_lt hcount)]
    simp only [count, instructionLimit]
    omega

end Lead

/-- The answer to a text by what stands behind its lead: nothing but possibly the
end anchor, a byte at fault, or anything at all when the room is used up. -/
inductive Answers (text : List UInt8) : Except PatternFault Pattern → Prop
  | complete {lead : Lead} {tail : Bool} :
      lead.Opens text (if tail then [Byte.bar] else []) →
      lead.emitted + (if tail then 1 else 0) + 1 ≤ instructionLimit →
      Answers text (.ok (lead.pattern tail))
  | stuck {lead : Lead} {rest : List UInt8} {delay : Nat} : lead.Opens text rest →
      Stuck rest delay → lead.emitted < instructionLimit - 1 →
      Answers text (.error (.invalidByte (lead.bytes.length + delay)
        (text[lead.bytes.length + delay]?.getD terminator)))
  | full {lead : Lead} {rest : List UInt8} : lead.Opens text rest → rest ≠ [] →
      lead.emitted = instructionLimit - 1 → Answers text (.error .tooLong)

theorem Answers.read_eq {text : List UInt8} {answer : Except PatternFault Pattern}
    (hanswer : Answers text answer) : read text = answer := by
  cases hanswer with
  | complete hopens hsize => exact hopens.read_complete hsize
  | stuck hopens hstuck hroom => exact hopens.read_stuck hstuck hroom
  | full hopens hrest hfull => exact hopens.read_full hrest hfull

/-- Every text has one of the three answers. -/
theorem exists_answer (text : List UInt8) : ∃ answer, Answers text answer := by
  obtain ⟨lead, rest, hopens, hrest⟩ := Lead.exists_opens text
  by_cases hover : instructionLimit - 1 < lead.emitted
  · obtain ⟨full, behind, hfull, hbehind, hemitted⟩ := hopens.exists_full hover
    exact ⟨_, .full hfull hbehind hemitted⟩
  · by_cases hfull : lead.emitted = instructionLimit - 1 ∧ rest ≠ []
    · exact ⟨_, .full hopens hfull.2 hfull.1⟩
    · rcases hrest with rfl | rfl | ⟨delay, hstuck⟩
      · have hsize : lead.emitted + 0 + 1 ≤ instructionLimit := by
          unfold instructionLimit at *
          omega
        exact ⟨.ok (lead.pattern false), .complete hopens hsize⟩
      · have hroom : lead.emitted ≠ instructionLimit - 1 := fun h => hfull ⟨h, by simp⟩
        have hsize : lead.emitted + 1 + 1 ≤ instructionLimit := by
          unfold instructionLimit at *
          omega
        exact ⟨.ok (lead.pattern true), .complete hopens hsize⟩
      · have hne : rest ≠ [] := by cases hstuck <;> simp
        have hroom : lead.emitted ≠ instructionLimit - 1 := fun h => hfull ⟨h, hne⟩
        exact ⟨_, .stuck hopens hstuck (by omega)⟩

theorem read_eq_iff {text : List UInt8} {answer : Except PatternFault Pattern} :
    read text = answer ↔ Answers text answer := by
  constructor
  · intro hread
    obtain ⟨other, hother⟩ := exists_answer text
    rw [← hread, hother.read_eq]
    exact hother
  · exact Answers.read_eq

theorem read_eq_ok_iff {text : List UInt8} {pattern : Pattern} :
    read text = .ok pattern ↔
      ∃ (lead : Lead) (tail : Bool),
        lead.Opens text (if tail then [Byte.bar] else []) ∧
          lead.emitted + (if tail then 1 else 0) + 1 ≤ instructionLimit ∧
          pattern = lead.pattern tail := by
  rw [read_eq_iff]
  constructor
  · intro hanswer
    cases hanswer with
    | complete hopens hsize => exact ⟨_, _, hopens, hsize, rfl⟩
  · intro hlead
    obtain ⟨lead, tail, hopens, hsize, rfl⟩ := hlead
    exact .complete hopens hsize

theorem read_eq_invalidByte_iff {text : List UInt8} {offset : Nat} {byte : UInt8} :
    read text = .error (.invalidByte offset byte) ↔
      ∃ (lead : Lead) (rest : List UInt8) (delay : Nat), lead.Opens text rest ∧
        Stuck rest delay ∧ lead.emitted < instructionLimit - 1 ∧
        offset = lead.bytes.length + delay ∧ byte = text[offset]?.getD terminator := by
  rw [read_eq_iff]
  constructor
  · intro hanswer
    cases hanswer with
    | stuck hopens hstuck hroom => exact ⟨_, _, _, hopens, hstuck, hroom, rfl, rfl⟩
  · intro hlead
    obtain ⟨lead, rest, delay, hopens, hstuck, hroom, rfl, rfl⟩ := hlead
    exact .stuck hopens hstuck hroom

theorem read_eq_tooLong_iff {text : List UInt8} :
    read text = .error .tooLong ↔
      ∃ (lead : Lead) (rest : List UInt8), lead.Opens text rest ∧ rest ≠ [] ∧
        lead.emitted = instructionLimit - 1 := by
  rw [read_eq_iff]
  constructor
  · intro hanswer
    cases hanswer with
    | full hopens hrest hfull => exact ⟨_, _, hopens, hrest, hfull⟩
  · intro hlead
    obtain ⟨lead, rest, hopens, hrest, hfull⟩ := hlead
    exact .full hopens hrest hfull

/-- Compiling succeeds exactly on the texts of the grammar that need no more
instructions than a program may have. -/
theorem compile_eq_ok_iff {text : String} {flags : Flags}
    {instructions : List Instruction} :
    compile text flags = .ok instructions ↔
      ∃ (lead : Lead) (tail : Bool),
        lead.Opens (utf8 text) (if tail then [Byte.bar] else []) ∧
          instructions = (lead.pattern tail).instructions (flags.contains .matchCase) ∧
          instructions.length ≤ instructionLimit := by
  constructor
  · intro hcompile
    unfold compile at hcompile
    cases hread : read (utf8 text) with
    | error fault =>
        rw [hread] at hcompile
        contradiction
    | ok pattern =>
        rw [hread] at hcompile
        obtain ⟨lead, tail, hopens, hsize, rfl⟩ := read_eq_ok_iff.1 hread
        have hinstructions := (Except.ok.inj hcompile).symm
        refine ⟨lead, tail, hopens, hinstructions, ?_⟩
        rw [hinstructions, lead.length_instructions]
        exact hsize
  · intro hlead
    obtain ⟨lead, tail, hopens, rfl, hsize⟩ := hlead
    rw [lead.length_instructions] at hsize
    rw [compile, hopens.read_complete hsize]
    rfl

theorem compile_eq_error_iff {text : String} {flags : Flags} {fault : PatternFault} :
    compile text flags = .error fault ↔ read (utf8 text) = .error fault := by
  unfold compile
  cases read (utf8 text) <;> simp [Except.map]

end Pattern

end UrlFilter
