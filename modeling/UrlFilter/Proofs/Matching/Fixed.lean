/-
Patterns without wildcards.

Such a pattern asks for one byte after the other from where the match starts, so
its rule accepts a URI exactly if each item of the pattern takes what stands at
its place.  Behind the last byte of the URI stands nothing, and only separators
take that.
-/
import UrlFilter.Proofs.Matching.Start

namespace UrlFilter

/-- Does an atom take what stands at a place of a URI?  A separator also takes the
end, where nothing stands. -/
def Atom.Takes : Atom → Option UInt8 → Prop
  | separator, found => ∀ byte, found = some byte → isSeparator byte = true
  | literal byte, found => found = some (lowerByte byte)

instance (atom : Atom) (found : Option UInt8) : Decidable (atom.Takes found) :=
  match atom, found with
  | .separator, none => isTrue (fun _ h => nomatch h)
  | .separator, some byte =>
      decidable_of_iff (isSeparator byte = true) (by simp [Atom.Takes])
  | .literal byte, found => inferInstanceAs (Decidable (found = some (lowerByte byte)))

namespace Atom

/-- The operand of an atom fits what the atom takes. -/
theorem IsWritable.fits_operand_iff {atom : Atom} (hatom : atom.IsWritable)
    {text : String} {place : Nat} :
    Operand.fits (atom.operand false) (byteAt text.toByteArray place) = true ↔
      atom.Takes (utf8 text)[place]? := by
  cases atom with
  | separator =>
      change Operand.fits Operand.separator _ = true ↔ _
      rw [Operand.fits_separator]
      exact byteAt_mem_iff isSeparator_terminator
  | literal byte =>
      change Operand.fits (Operand.ofByte (lowerByte byte)) _ = true ↔ _
      rw [Operand.fits_ofByte, decide_eq_true_eq, eq_comm]
      exact byteAt_eq_iff (lowerByte_ne_terminator hatom)

end Atom

theorem flatMap_bytes_map_here (items : List Atom) :
    (items.map Token.here).flatMap Token.bytes = items.map Atom.byte := by
  induction items with
  | nil => rfl
  | cons item items ih => simp [Token.bytes, ih]

/-- A run over items succeeds exactly if each of them takes what stands at its
place. -/
theorem run_items_iff {items : List Atom} (hitems : ∀ item ∈ items, item.IsWritable)
    {text : String} {cursor : Nat} {rest : List Instruction} :
    run text.toByteArray
        ((items.map Token.here).map (Token.instruction false) ++ rest) cursor = true ↔
      (∀ (index : Nat) (item : Atom), items[index]? = some item →
        item.Takes (utf8 text)[cursor + index]?) ∧
        run text.toByteArray rest (cursor + items.length) = true := by
  rw [run_map_here_iff]
  refine and_congr_left fun _ => forall_congr' fun index => forall_congr' fun item => ?_
  constructor
  · intro h hitem
    exact ((hitems item (List.mem_of_getElem? hitem)).fits_operand_iff).1 (h hitem)
  · intro h hitem
    exact ((hitems item (List.mem_of_getElem? hitem)).fits_operand_iff).2 (h hitem)

/-- A plain line that is an anchor and items has a rule.  The rule accepts a URI
exactly if the URI is not empty and there is a place where a match may start, from
which on each item takes what stands at its place. -/
theorem accepts_iff_items_take {line : String} {anchor : Anchor} {items : List Atom}
    (htext : utf8 line = anchor.bytes ++ items.map Atom.byte)
    (hitems : ∀ item ∈ items, item.IsPlain) (hplain : Line.IsPlain line)
    (hne : line ≠ "")
    (hsize : anchor.instructions.length + items.length + 1 ≤ instructionLimit) :
    ∃ rule, compileLine line = .ok (some rule) ∧ ∀ mode query,
      rule.accepts mode query = true ↔
        query.uri ≠ "" ∧ ∃ origin, anchor.Admits (utf8 query.uri) origin ∧
          ∀ (index : Nat) (item : Atom), items[index]? = some item →
            item.Takes (utf8 query.uri)[origin + index]? := by
  have hwritable : ∀ item ∈ items, item.IsWritable :=
    fun item hitem => (hitems item hitem).isWritable
  have htokens : ∀ token ∈ items.map Token.here, token.atom.IsPlain := by
    intro token htoken
    obtain ⟨item, hitem, rfl⟩ := List.mem_map.1 htoken
    exact hitems item hitem
  rw [← flatMap_bytes_map_here] at htext
  obtain ⟨rule, hrule, haccepts⟩ :=
    hplain.exists_rule_of_tokens hne htext htokens (by simp) (by simpa using hsize)
  refine ⟨rule, hrule, fun mode query => ?_⟩
  rw [haccepts]
  simp only [run_items_iff hwritable, run_accept, and_true]

/-- The filter for a host `ad` accepts a URI with that host. -/
theorem accepts_host_ad :
    Line.IsPlain "||ad^" ∧ ∃ rule, compileLine "||ad^" = .ok (some rule) ∧
      rule.accepts .inert (.mk "http://ad/x") = true := by
  have htext : utf8 "||ad^" = Anchor.host.bytes ++
      [Atom.literal 0x61, .literal 0x64, .separator].map Atom.byte := by decide
  have hplain : Line.IsPlain "||ad^" := by decide
  obtain ⟨rule, hrule, haccepts⟩ :=
    accepts_iff_items_take htext (by decide) hplain (by decide) (by decide)
  refine ⟨hplain, rule, hrule, (haccepts .inert _).2 ⟨by decide, 7, ?_, ?_⟩⟩
  · have hscheme : ∀ place < 4,
        (utf8 "http://ad/x")[place]?.any isSchemeByte = true := by decide
    have hslashes : ∀ place < 7, 4 < place →
        (utf8 "http://ad/x")[place]? = some Byte.slash := by decide
    refine ⟨4, by decide, ?_, by decide, by decide, ?_⟩
    · exact fun place hplace => (Option.any_eq_true _ _).1 (hscheme place hplace)
    · exact fun place hfrom hto => hslashes place hto hfrom
  · intro index item hitem
    match index with
    | 0 =>
        cases hitem
        decide
    | 1 =>
        cases hitem
        decide
    | 2 =>
        cases hitem
        decide

end UrlFilter
