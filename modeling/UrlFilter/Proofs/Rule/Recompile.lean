/-
Compiling the patterns of rules again.

The pattern of a rule is a normal form that compiles.  A wildcard in front of an end anchor does
not compile, so the only edge that normalizing can still find in such a pattern is a start anchor
with a wildcard behind it.  Where it stands, normalizing the pattern again makes it shorter, and
no shorter text has the program of the rule.
-/
import UrlFilter.Proofs.Filter.Recorded
import UrlFilter.Proofs.Pattern.Decode
import UrlFilter.Proofs.Pattern.Edges

namespace UrlFilter

namespace Pattern

/-- The byte of a wildcard stands in a lead only in its tokens. -/
theorem Lead.tokens_ne_nil_of_star {lead : Lead} (hstar : Byte.star ∈ lead.bytes) :
    lead.tokens ≠ [] := by
  intro hnil
  rw [Lead.bytes, hnil, List.flatMap_nil, List.append_nil, List.mem_append] at hstar
  rcases hstar with hstar | hstar
  · rw [Lead.markBytes] at hstar
    split at hstar
    · exact absurd hstar (by decide)
    · exact absurd hstar List.not_mem_nil
  · exact absurd (Anchor.eq_bar_of_mem_bytes hstar) (by decide)

/-- The last byte of a lead with a wildcard is that of its last token. -/
theorem Lead.exists_last_token {lead : Lead} {front : List UInt8} {byte : UInt8}
    (hbytes : lead.bytes = front ++ [byte]) (hstar : Byte.star ∈ lead.bytes) :
    ∃ token ∈ lead.tokens, token.atom.byte = byte := by
  obtain ⟨others, token, htoken, htokens⟩ :=
    Token.exists_flatMap_bytes_eq (Lead.tokens_ne_nil_of_star hstar)
  rw [Lead.bytes, htokens, ← List.append_assoc] at hbytes
  exact ⟨token, htoken, List.head_eq_of_cons_eq (List.append_inj' hbytes rfl).2⟩

/-- A text that is read as a pattern does not end with a wildcard and an end anchor, if no two
wildcards stand side by side in it. -/
theorem Lead.Opens.not_suffix_star_bar {lead : Lead} {text : List UInt8} {tail : Bool}
    (hopens : lead.Opens text (if tail then [Byte.bar] else []))
    (hrun : ¬ [Byte.star, Byte.star] <:+: text) : ¬ [Byte.star, Byte.bar] <:+ text := by
  have hbar : ∀ token ∈ lead.tokens, token.atom.byte ≠ Byte.bar := fun token htoken =>
    Atom.byte_ne_bar (hopens.tokens_writable token htoken).atom_isWritable
  rintro ⟨front, hfront⟩
  rw [hopens.text_eq] at hfront
  cases tail with
  | false =>
      have hbytes : lead.bytes = front ++ [Byte.star] ++ [Byte.bar] := by
        rw [List.append_assoc]
        exact (List.append_nil _).symm.trans hfront.symm
      obtain ⟨token, htoken, hbyte⟩ := Lead.exists_last_token hbytes (by simp [hbytes])
      exact hbar token htoken hbyte
  | true =>
      have hbytes : lead.bytes = front ++ [Byte.star] := by
        have hends : front ++ [Byte.star] ++ [Byte.bar] = lead.bytes ++ [Byte.bar] := by
          rw [List.append_assoc]
          exact hfront
        exact (List.append_cancel_right hends).symm
      obtain ⟨token, htoken, hbyte⟩ := Lead.exists_last_token hbytes (by simp [hbytes])
      exact hopens.atom_byte_ne_star hrun htoken hbyte

/-- The same for a text that compiles. -/
theorem not_suffix_of_compile {text : String} {flags : Flags} {instructions : List Instruction}
    (hrun : ¬ ['*', '*'] <:+: text.toList) (hcompile : compile text flags = .ok instructions) :
    ¬ ['*', '|'] <:+ text.toList := by
  obtain ⟨lead, tail, hopens, -, -⟩ := compile_eq_ok_iff.1 hcompile
  rintro ⟨front, hfront⟩
  apply hopens.not_suffix_star_bar (mt star_run_infix_utf8_iff.1 hrun)
  rw [utf8_eq_flatMap, ← hfront, List.flatMap_append]
  exact List.suffix_append _ _

/-- Texts with one program are of one length, but for their marks. -/
theorem length_unmarked_eq_of_compile {left right : String} {flags : Flags}
    {program : List Instruction} (hleft : compile left flags = .ok program)
    (hright : compile right flags = .ok program) :
    (unmarked left).length = (unmarked right).length := by
  have hlower : ∀ text : String, text.toLower.length = text.length := by
    intro text
    rw [← String.length_toList, toList_toLower, List.length_map, String.length_toList]
  have hdecode := decode_eq_of_compile hleft
  rw [decode_eq_of_compile hright] at hdecode
  cases hcase : flags.contains .matchCase with
  | true =>
      rw [hcase, if_pos rfl, if_pos rfl] at hdecode
      rw [hdecode]
  | false =>
      rw [hcase, if_neg Bool.false_ne_true, if_neg Bool.false_ne_true] at hdecode
      rw [← hlower, ← hdecode, hlower]

/-- Without the mark a text is no longer than with it. -/
theorem length_unmarked_le (text : String) : (unmarked text).length ≤ text.length := by
  rw [← String.length_toList, ← String.length_toList, unmarked, String.toList_ofList]
  exact (stripFront_isSuffix _ _).length_le

end Pattern

section Recompile

variable {line : String} {rule : Rule} (hline : compileLine line = .ok (some rule))
include hline

/-- The pattern of a rule is a normal form, and the program is that of the pattern. -/
theorem Rule.pattern_of_compileLine :
    (∃ text, rule.pattern.toList = Pattern.normalizeChars text) ∧
      Pattern.compile rule.pattern rule.flags = .ok rule.program.instructions := by
  obtain ⟨instructions, hcompile, rfl⟩ :=
    Filter.exists_instructions_of_compile (Filter.compile_of_compileLine hline)
  refine ⟨⟨_, Filter.toList_pattern_ofText line⟩, ?_⟩
  rw [Pattern.compile_congr _ (Rule.contains_assemble (by decide))]
  exact hcompile

/-- Normalizing leaves the pattern of a rule alone unless it begins with a start anchor and a
wildcard. -/
theorem Rule.normalize_pattern_iff :
    Pattern.normalize rule.pattern = rule.pattern ↔ ¬ ['|', '*'] <+: rule.pattern.toList := by
  obtain ⟨⟨text, htext⟩, hcompile⟩ := Rule.pattern_of_compileLine hline
  rw [← String.toList_inj, Pattern.toList_normalize, Pattern.normalizeChars_eq_self_iff]
  constructor
  · exact fun h => h.no_star_behind_start
  · intro hstart
    rw [htext] at hstart ⊢
    apply Pattern.isNormal_normalizeChars hstart
    rw [← htext]
    apply Pattern.not_suffix_of_compile _ hcompile
    rw [htext]
    exact Pattern.no_run_normalizeChars text

/-- The program of a rule is compiled again from its pattern only if normalizing leaves that
alone: no shorter text has the same program. -/
theorem Rule.compile_normalize_iff :
    Pattern.compile (Pattern.normalize rule.pattern) rule.flags =
        .ok rule.program.instructions ↔
      Pattern.normalize rule.pattern = rule.pattern := by
  obtain ⟨-, hcompile⟩ := Rule.pattern_of_compileLine hline
  constructor
  · intro hagain
    by_contra hne
    obtain ⟨rest, hstart⟩ := not_not.1 (mt (Rule.normalize_pattern_iff hline).2 hne)
    have hmark : ¬ ['@', '@'] <+: rule.pattern.toList := by
      rw [← hstart]
      exact fun h => absurd (List.cons_prefix_cons.1 h).1 (by decide)
    have hsame := Pattern.length_unmarked_eq_of_compile hcompile hagain
    have hle := Pattern.length_unmarked_le (Pattern.normalize rule.pattern)
    rw [← hsame, Pattern.unmarked_eq_self hmark] at hle
    -- Normalizing takes nothing away then, and so it leaves the pattern as it is.
    have hkept := Pattern.normalizeChars_sublist rule.pattern.toList
    apply hne
    rw [← String.toList_inj]
    simp only [← String.length_toList, Pattern.toList_normalize] at hle ⊢
    exact hkept.eq_of_length (Nat.le_antisymm hkept.length_le hle)
  · intro hself
    rw [hself]
    exact hcompile

end Recompile

/-- Normalizing twice.  A normal form is normalized to itself exactly if neither a start anchor
with a wildcard behind it nor an end anchor with a wildcard in front of it stood twice at an end
of the text, since each step runs once.  The pattern of a rule is a normal form that normalizing
leaves alone exactly if it does not begin with a start anchor and a wildcard, and exactly then the
program of the rule is what compiling the pattern again comes to. -/
theorem normalize_normalize_and_recompile :
    (∀ text : String, Pattern.normalize (Pattern.normalize text) = Pattern.normalize text ↔
      ¬ Pattern.RepeatsEdge text.toList) ∧
    ∀ (line : String) (rule : Rule), compileLine line = .ok (some rule) →
      (Pattern.normalize rule.pattern = rule.pattern ↔
        ¬ ['|', '*'] <+: rule.pattern.toList) ∧
      (Pattern.compile (Pattern.normalize rule.pattern) rule.flags =
          .ok rule.program.instructions ↔
        ¬ ['|', '*'] <+: rule.pattern.toList) := by
  constructor
  · intro text
    rw [← String.toList_inj, Pattern.toList_normalize, Pattern.toList_normalize]
    exact Pattern.normalizeChars_normalizeChars_iff
  · intro line rule hline
    have hnormal := Rule.normalize_pattern_iff hline
    exact ⟨hnormal, (Rule.compile_normalize_iff hline).trans hnormal⟩

/-- A line with an edge to remove at each end. -/
theorem recompile_anchored_rule :
    let rule := Rule.assemble "*|a*^|" "|a*^" [Instruction.head, ⟨.char, 0x61⟩,
      ⟨.skipTo, Operand.separator⟩, Instruction.accept] Flags.empty [] []
    Pattern.normalize (Pattern.normalize "*|a*^|") = Pattern.normalize "*|a*^|" ∧
      compileLine "*|a*^|" = .ok (some rule) ∧
      Pattern.normalize rule.pattern = rule.pattern ∧
      Pattern.compile (Pattern.normalize rule.pattern) rule.flags =
        .ok rule.program.instructions := by
  intro rule
  have hline : compileLine "*|a*^|" = .ok (some rule) := by decide +kernel
  have hstart : ¬ ['|', '*'] <+: rule.pattern.toList := by decide
  obtain ⟨htexts, hrules⟩ := normalize_normalize_and_recompile
  obtain ⟨hnormal, hagain⟩ := hrules _ rule hline
  exact ⟨(htexts _).2 (by decide), hline, hnormal.2 hstart, hagain.2 hstart⟩

/-- Normalizing twice is not always normalizing once.  Of two start anchors with a wildcard
behind each, one is left in the normal form, and removing that one too leaves another program. -/
theorem not_normalize_normalize_eq :
    ¬ (∀ text : String,
        Pattern.normalize (Pattern.normalize text) = Pattern.normalize text) ∧
      ¬ (∀ (line : String) (rule : Rule), compileLine line = .ok (some rule) →
        Pattern.normalize rule.pattern = rule.pattern) ∧
      ¬ ∀ (line : String) (rule : Rule), compileLine line = .ok (some rule) →
        Pattern.compile (Pattern.normalize rule.pattern) rule.flags =
          .ok rule.program.instructions := by
  have hline : compileLine "|*|*a" = .ok (some (Rule.assemble "|*|*a" "|*a"
      [Instruction.head, ⟨.skipTo, 0x61⟩, Instruction.accept] Flags.empty [] [])) := by
    decide +kernel
  refine ⟨fun htwice => ?_, fun hnormal => ?_, fun hagain => ?_⟩
  · exact absurd (htwice "|*|*a") (by decide +kernel)
  · exact absurd (hnormal _ _ hline) (by decide +kernel)
  · exact absurd (hagain _ _ hline) (by decide +kernel)

end UrlFilter
