/-
The mark of an exception and the flag of one.

The flag of an exception is read off the pattern text of a line as it stands, and the mark is
passed over in the normal form of that text.  The two go apart where normalizing brings a
mark to the front: such a rule loses the mark from its program without being an exception.
-/
import UrlFilter.Proofs.Filter.Flags
import UrlFilter.Proofs.Pattern.Mark
import UrlFilter.Proofs.Rule.Shape
import UrlFilter.Proofs.Text.Substring

namespace UrlFilter

/-- Is the program of a rule only for what stands in its pattern behind a mark of an
exception? -/
def Rule.SkipsMark (rule : Rule) : Prop :=
  ∃ pattern : Pattern, utf8 rule.pattern = Pattern.exceptionMark ++ pattern.bytes ∧
    rule.program.instructions = pattern.instructions (rule.flags.contains .matchCase)

namespace Pattern

theorem exceptionMark_prefix_utf8_iff {text : String} :
    exceptionMark <+: utf8 text ↔ ['@', '@'] <+: text.toList := by
  have hmark : exceptionMark = ['@', '@'].flatMap String.utf8EncodeChar := by decide
  rw [hmark, utf8_eq_flatMap, flatMap_utf8EncodeChar_prefix_iff]

theorem star_run_infix_utf8_iff {text : String} :
    [Byte.star, Byte.star] <:+: utf8 text ↔ ['*', '*'] <:+: text.toList := by
  have hrun : [Byte.star, Byte.star] = ['*', '*'].flatMap String.utf8EncodeChar := by decide
  rw [hrun, utf8_eq_flatMap, flatMap_utf8EncodeChar_infix_iff]

/-- A text that is a pattern is the text of that pattern, behind the mark if it has one. -/
theorem Lead.Opens.text_eq_markBytes_append {lead : Lead} {text : List UInt8} {tail : Bool}
    (hopens : lead.Opens text (if tail then [Byte.bar] else [])) :
    text = lead.markBytes ++ (lead.pattern tail).bytes := by
  rw [hopens.text_eq, Lead.bytes, Lead.pattern, Pattern.bytes]
  simp only [List.append_assoc]

end Pattern

/-- The program of a compiled rule passes over the mark that its pattern begins with. -/
theorem Filter.skipsMark_iff {filter : Filter} {rule : Rule}
    (h : filter.compile = .ok rule) :
    rule.SkipsMark ↔ ['@', '@'] <+: rule.pattern.toList := by
  rw [← Pattern.exceptionMark_prefix_utf8_iff]
  constructor
  · rintro ⟨pattern, htext, -⟩
    rw [htext]
    exact List.prefix_append _ _
  · intro hmark
    obtain ⟨instructions, hcompile, rfl⟩ := exists_instructions_of_compile h
    obtain ⟨lead, tail, hopens, rfl, -⟩ := Pattern.compile_eq_ok_iff.1 hcompile
    have hmarked : lead.markBytes = Pattern.exceptionMark :=
      if_pos (hopens.mark_taken hmark)
    refine ⟨lead.pattern tail, ?_, ?_⟩
    · rw [← hmarked]
      exact hopens.text_eq_markBytes_append
    · rw [Rule.contains_assemble (by decide)]
      rfl

/-- A compiled rule has the flag of an exception if the pattern text of its line starts with
the mark. -/
theorem Filter.contains_allow_iff_of_compile {line : String} {rule : Rule}
    (h : (Filter.ofText line).compile = .ok rule) :
    rule.flags.contains .allow = true ↔
      ['@', '@'] <+: line.toList.takeWhile (· != '$') := by
  obtain ⟨instructions, -, rfl⟩ := exists_instructions_of_compile h
  rw [Rule.contains_assemble (by decide), contains_allow_flags_iff]

/-- The pattern of a compiled rule starts with the mark if that text does or hides one. -/
theorem Filter.mark_prefix_pattern_iff_of_compile {line : String} {rule : Rule}
    (h : (Filter.ofText line).compile = .ok rule) :
    ['@', '@'] <+: rule.pattern.toList ↔
      ['@', '@'] <+: line.toList.takeWhile (· != '$') ∨
        Pattern.HidesMark (line.toList.takeWhile (· != '$')) := by
  obtain ⟨instructions, -, rfl⟩ := exists_instructions_of_compile h
  rw [← Pattern.mark_prefix_normalizeChars_iff, ← toList_pattern_ofText]
  rfl

/-- The flag of an exception and the mark.  A compiled rule has the flag exactly if the
pattern text of its line starts with the mark, and its program passes over a mark exactly if
its pattern starts with one.  Every rule with the flag passes over its mark.  A rule without
the flag does so too if its line hides the mark behind wildcards that normalizing takes away,
and otherwise not. -/
theorem allow_and_skipsMark_of_compileLine {line : String} {rule : Rule}
    (h : compileLine line = .ok (some rule)) :
    (rule.flags.contains .allow = true ↔
        ['@', '@'] <+: line.toList.takeWhile (· != '$')) ∧
      (rule.SkipsMark ↔ ['@', '@'] <+: rule.pattern.toList) ∧
      (rule.flags.contains .allow = true → rule.SkipsMark) ∧
      (rule.SkipsMark ∧ rule.flags.contains .allow = false ↔
        Pattern.HidesMark (line.toList.takeWhile (· != '$'))) := by
  have hcompile := Filter.compile_of_compileLine h
  have hskips := Filter.skipsMark_iff hcompile
  have hallow := Filter.contains_allow_iff_of_compile hcompile
  have hpattern := hskips.trans (Filter.mark_prefix_pattern_iff_of_compile hcompile)
  refine ⟨hallow, hskips, fun hflag => hpattern.2 (Or.inl (hallow.1 hflag)), ?_⟩
  rw [Bool.eq_false_iff, ne_eq, hallow, hpattern]
  constructor
  · rintro ⟨hmark | hhidden, hnot⟩
    · exact absurd hmark hnot
    · exact hhidden
  · exact fun hhidden =>
      ⟨Or.inr hhidden, fun hmark => Pattern.not_hidesMark_of_prefix hmark hhidden⟩

/-- An exception with an anchor and an option. -/
theorem skipsMark_exception_for_host :
    ∃ rule, compileLine "@@||a.b^$script" = .ok (some rule) ∧
      rule.flags.contains .allow = true ∧ rule.SkipsMark := by
  have hsome : ∃ rule, compileLine "@@||a.b^$script" = .ok (some rule) :=
    ⟨_, rfl⟩
  obtain ⟨rule, hrule⟩ := hsome
  obtain ⟨hallow, -, hskips, -⟩ := allow_and_skipsMark_of_compileLine hrule
  have hflag := hallow.2 (by decide)
  exact ⟨rule, hrule, hflag, hskips hflag⟩

/-- The flag and the mark do not always agree: the wildcard in front of the mark is taken away
only after the flag is decided. -/
theorem not_allow_iff_skipsMark :
    ¬ ∀ (line : String) (rule : Rule), compileLine line = .ok (some rule) →
      ((rule.flags.contains .allow = true ↔ rule.SkipsMark) ∧
        (rule.SkipsMark ↔ ['@', '@'] <+: rule.pattern.toList)) := by
  intro hagree
  have hline : compileLine "*@@a" = .ok (some (Rule.assemble "*@@a" "@@a"
      [⟨.char, 0x61⟩, Instruction.accept] Flags.empty [] [])) := by decide +kernel
  obtain ⟨hallow, hmark⟩ := hagree _ _ hline
  exact absurd (hallow.2 (hmark.2 (by decide))) (by decide)

end UrlFilter
