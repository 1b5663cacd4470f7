/-
The byte at fault in a normal form.

A pattern text is read byte by byte, and what is read is ASCII.  Only a wildcard at the very end
of a text would have the reader look behind the text, and no normal form ends so.  So the fault of
a rule points at a byte of its pattern, at the start of a character, and this byte fits nowhere
in a pattern but as an anchor.
-/
import UrlFilter.Filter.Compile
import UrlFilter.Proofs.Pattern.Edges
import UrlFilter.Proofs.Rule.Shape
import UrlFilter.Proofs.Text.Substring

namespace UrlFilter

namespace Pattern

/-- A place in a text and the byte at it, with characters of ASCII in front of the place and a
byte there that stands for no atom. -/
structure PointsAtFault (text : String) (offset : Nat) (byte : UInt8) : Prop where
  offset_lt : offset < (utf8 text).length
  getElem?_eq : (utf8 text)[offset]? = some byte
  ascii_before : ∀ other ∈ (utf8 text).take offset, other < 0x80
  isValid : String.Pos.Raw.IsValid text ⟨offset⟩
  not_isUrlByte : isUrlByte byte = false
  ne_caret : byte ≠ Byte.caret

/-- The byte at fault is in the text, unless nothing but a wildcard is left of it. -/
theorem Stuck.exists_byte {rest : List UInt8} {delay : Nat} (hstuck : Stuck rest delay)
    (hend : rest ≠ [Byte.star]) :
    ∃ byte, rest[delay]? = some byte ∧ isUrlByte byte = false ∧ byte ≠ Byte.caret ∧
      ∀ other ∈ rest.take delay, other = Byte.star := by
  cases hstuck with
  | @stray byte rest hcaret hurl hbar => exact ⟨byte, rfl, hurl, hcaret, by simp⟩
  | @behindStar byte rest hcaret hurl => exact ⟨byte, rfl, hurl, hcaret, by simp⟩
  | danglingStar => exact absurd rfl hend

/-- The fault of a text that does not end with a wildcard points at one of its bytes. -/
theorem pointsAtFault_of_compile {text : String} {flags : Flags} {offset : Nat} {byte : UInt8}
    (hend : ¬ ['*'] <:+ text.toList)
    (hcompile : compile text flags = .error (.invalidByte offset byte)) :
    PointsAtFault text offset byte := by
  obtain ⟨lead, rest, delay, hopens, hstuck, -, rfl, rfl⟩ :=
    read_eq_invalidByte_iff.1 (compile_eq_error_iff.1 hcompile)
  have hrest : rest ≠ [Byte.star] := by
    rintro rfl
    exact hend (hopens.map_suffix_toList (List.forall_mem_singleton.2 (by decide)))
  obtain ⟨byte, hbyte, hurl, hcaret, hstars⟩ := hstuck.exists_byte hrest
  have hplace : (utf8 text)[lead.bytes.length + delay]? = some byte := by
    rw [hopens.text_eq, List.getElem?_append_right (Nat.le_add_right _ _),
      Nat.add_sub_cancel_left, hbyte]
  have hlt := (List.getElem?_eq_some_iff.1 hplace).1
  have hascii : ∀ other ∈ (utf8 text).take (lead.bytes.length + delay), other < 0x80 := by
    intro other hother
    rw [hopens.text_eq, List.take_length_add_append, List.mem_append] at hother
    rcases hother with hother | hother
    · exact hopens.byte_lt_of_mem_bytes other hother
    · rw [hstars other hother]
      decide
  rw [hplace]
  exact {
    offset_lt := hlt
    getElem?_eq := hplace
    ascii_before := hascii
    isValid := isValid_of_ascii_take (Nat.le_of_lt hlt) hascii
    not_isUrlByte := hurl
    ne_caret := hcaret }

end Pattern

/-- A filter fails to compile by the fault of its pattern. -/
theorem Filter.error_of_compile {filter : Filter} {error : CompileError}
    (h : filter.compile = .error error) :
    error.pattern = filter.pattern ∧
      Pattern.compile filter.pattern filter.flags = .error error.fault := by
  unfold compile at h
  split at h
  · cases h
  · rename_i fault hcompile
    rw [← Except.error.inj h]
    exact ⟨rfl, hcompile⟩

/-- The error of a line is the error of its filter. -/
theorem Filter.compile_of_compileLine_error {line : String} {error : CompileError}
    (h : compileLine line = .error error) : (ofText line).compile = .error error := by
  rw [compileLine] at h
  split at h
  · rename_i filter hline
    rw [Line.eq_ofText_of_filter hline] at h
    cases hcompile : (ofText line).compile with
    | ok rule =>
        rw [hcompile] at h
        contradiction
    | error fault =>
        rw [hcompile] at h
        exact congrArg Except.error (Except.error.inj h)
  all_goals cases h

/-- A normal form has no two wildcards side by side, none at its ends, and no separator in front
of an end anchor.  So a line that fails by a byte at fault points at a byte of its pattern: the
place is in the pattern and between two characters, the byte is the one that stands there, all
bytes in front of it are ASCII, and it is neither a separator nor a byte of a URL. -/
theorem normalForm_and_fault :
    (∀ text : String, ¬ ['*', '*'] <:+: (Pattern.normalize text).toList ∧
      ¬ ['*'] <+: (Pattern.normalize text).toList ∧
      ¬ ['*'] <:+ (Pattern.normalize text).toList ∧
      ¬ ['^', '|'] <:+ (Pattern.normalize text).toList) ∧
    ∀ (line : String) (error : CompileError) (offset : Nat) (byte : UInt8),
      compileLine line = .error error → error.fault = .invalidByte offset byte →
        Pattern.PointsAtFault error.pattern offset byte := by
  constructor
  · intro text
    rw [Pattern.toList_normalize]
    obtain ⟨hfront, hback⟩ := Pattern.no_star_normalizeChars text.toList
    exact ⟨Pattern.no_run_normalizeChars _, hfront, hback, Pattern.not_suffix_normalizeChars _⟩
  · intro line error offset byte hline hfault
    obtain ⟨hpattern, hcompile⟩ :=
      Filter.error_of_compile (Filter.compile_of_compileLine_error hline)
    rw [hfault] at hcompile
    rw [hpattern]
    refine Pattern.pointsAtFault_of_compile ?_ hcompile
    rw [Filter.toList_pattern_ofText]
    exact (Pattern.no_star_normalizeChars _).2

/-- A wildcard in front of a character beyond ASCII, with wildcards at both ends of the line. -/
theorem fault_behind_star :
    let error : CompileError := ⟨"*a*é*|", "a*é", .invalidByte 2 0xc3⟩
    compileLine "*a*é*|" = .error error ∧ Pattern.PointsAtFault error.pattern 2 0xc3 := by
  intro error
  have hline : compileLine "*a*é*|" = .error error := by decide +kernel
  exact ⟨hline, normalForm_and_fault.2 _ error 2 0xc3 hline rfl⟩

end UrlFilter
