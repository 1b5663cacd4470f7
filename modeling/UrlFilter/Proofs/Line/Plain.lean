/-
Plain lines.

A plain line is a filter without options that is no exception.  Its pattern text
is the line itself, its rule has no domain tokens, and whether the rule accepts a
query is up to its program.
-/
import UrlFilter.Filter.Compile
import UrlFilter.Proofs.Pattern.NormalForm
import Mathlib.Data.List.TakeWhile

namespace UrlFilter

/-- The byte of `$`, which ends the pattern text of a line. -/
abbrev Byte.dollar : UInt8 := 0x24

/-- A byte that a plain line may contain as itself: a byte of a URL that is
neither the wildcard nor ends the pattern text. -/
def IsPlainByte (byte : UInt8) : Prop :=
  isUrlByte byte = true ∧ byte ≠ Byte.star ∧ byte ≠ Byte.dollar

instance (byte : UInt8) : Decidable (IsPlainByte byte) :=
  inferInstanceAs (Decidable (_ ∧ _))

/-- What holds of the 256 values holds of every byte. -/
theorem forall_byte {p : UInt8 → Prop} (h : ∀ value : Fin 256, p (UInt8.ofFin value))
    (byte : UInt8) : p byte :=
  h byte.toFin

theorem isUrlByte_lowerByte {byte : UInt8} (hurl : isUrlByte byte = true) :
    isUrlByte (lowerByte byte) = true := by
  revert byte
  apply forall_byte
  decide +kernel

theorem lowerByte_ne_terminator {byte : UInt8} (hurl : isUrlByte byte = true) :
    lowerByte byte ≠ terminator := by
  intro hzero
  have hlower := isUrlByte_lowerByte hurl
  rw [hzero, not_isUrlByte_terminator] at hlower
  contradiction

/-- A line that is not a comment, an exception or a rule for hiding elements. -/
structure Line.IsPlain (line : String) : Prop where
  not_comment : ¬ ['!'] <+: line.toList
  not_exception : ¬ ['@', '@'] <+: line.toList
  not_hiding : ¬ ['#', '#'] <:+: line.toList
  not_hiding_exception : ¬ ['#', '@', '#'] <:+: line.toList

instance (line : String) : Decidable (Line.IsPlain line) :=
  decidable_of_iff
    (¬ ['!'] <+: line.toList ∧ ¬ ['@', '@'] <+: line.toList ∧
      ¬ ['#', '#'] <:+: line.toList ∧ ¬ ['#', '@', '#'] <:+: line.toList)
    ⟨fun ⟨hcomment, hexception, hhiding, hhidingException⟩ =>
      ⟨hcomment, hexception, hhiding, hhidingException⟩,
     fun h => ⟨h.not_comment, h.not_exception, h.not_hiding, h.not_hiding_exception⟩⟩

/-- A line that is neither blank nor a comment is a filter unless it hides elements. -/
theorem Line.ofText_eq_of_not_comment {line : String} (hne : line ≠ "")
    (hcomment : ¬ ['!'] <+: line.toList) :
    Line.ofText line = if Line.marksHiding line.toList then .elementHiding
      else .filter (Filter.ofText line) := by
  rw [Line.ofText]
  split
  · rename_i hblank
    exact absurd (String.toList_eq_nil_iff.1 hblank) hne
  · rename_i rest hmark
    exact absurd ⟨rest, hmark.symm⟩ hcomment
  · rfl

/-- A plain line that is not blank is a filter. -/
theorem Line.IsPlain.ofText_eq {line : String} (hplain : Line.IsPlain line)
    (hne : line ≠ "") : Line.ofText line = .filter (Filter.ofText line) := by
  have hhiding : Line.marksHiding line.toList = false := by
    simp [Line.marksHiding, Bool.eq_false_iff, occurs_iff, hplain.not_hiding,
      hplain.not_hiding_exception]
  rw [Line.ofText_eq_of_not_comment hne hplain.not_comment, hhiding]
  rfl

/-- Without a dollar sign all of a line is its pattern text. -/
theorem Filter.ofText_eq_of_not_mem {line : String} (hdollar : '$' ∉ line.toList) :
    Filter.ofText line = ⟨line, line, []⟩ := by
  have hall : ∀ c ∈ line.toList, (c != '$') = true := by
    intro c hc
    have hne : c ≠ '$' := fun h => hdollar (h ▸ hc)
    simpa using hne
  have htake : line.toList.takeWhile (· != '$') = line.toList :=
    List.takeWhile_eq_self_iff.2 hall
  have hdrop : line.toList.dropWhile (· != '$') = [] :=
    List.dropWhile_eq_nil_iff.2 hall
  rw [Filter.ofText, htake, hdrop, String.ofList_toList]

/-- A plain line in normal form has the program that its text compiles to. -/
theorem Line.IsPlain.compileLine_eq {line : String} (hplain : Line.IsPlain line)
    (hne : line ≠ "") (hdollar : '$' ∉ line.toList)
    (hnormal : Pattern.IsNormal line.toList) {instructions : List Instruction}
    (hcompile : Pattern.compile line Flags.empty = .ok instructions) :
    compileLine line =
      .ok (some (Rule.assemble line line instructions Flags.empty [] [])) := by
  have hpattern : Filter.pattern ⟨line, line, []⟩ = line := by
    rw [Filter.pattern, Pattern.normalize, hnormal.normalizeChars_eq_self,
      String.ofList_toList]
  have hexception : Filter.isException ⟨line, line, []⟩ = false := by
    rw [Filter.isException, Bool.eq_false_iff]
    exact fun h => hplain.not_exception (List.isPrefixOf_iff_prefix.1 h)
  have hflags : Filter.flags ⟨line, line, []⟩ = Flags.empty := by
    simp [Filter.flags, Filter.clauses, hexception, Flags.ofList]
  have hrule : Filter.compile ⟨line, line, []⟩ =
      .ok (Rule.assemble line line instructions Flags.empty [] []) := by
    unfold Filter.compile
    rw [hpattern, hflags, hcompile]
    rfl
  have hfilter := Filter.ofText_eq_of_not_mem hdollar
  rw [compileLine, hplain.ofText_eq hne, hfilter]
  exact congrArg (Except.map some) hrule

/-- A rule without domain tokens leaves the decision to its program. -/
theorem Rule.accepts_assemble_nil (text pattern : String)
    (instructions : List Instruction) (flags : Flags) (mode : ExclusionMode)
    (query : Query) :
    (Rule.assemble text pattern instructions flags [] []).accepts mode query =
      (Rule.assemble text pattern instructions flags [] []).program.accepts
        query.bytes := by
  have hdomain := Rule.contains_domain_assemble text pattern instructions flags [] []
  simp only [List.isEmpty_nil, Bool.not_true, Bool.or_self] at hdomain
  rw [Rule.accepts, Rule.allowsDomain, hdomain]
  simp

end UrlFilter
