/-
The domain of a query.

The domain can be read off a URI as a text, or scanned for as a span of bytes.  Both are the
bytes from one place on, the start of the domain, up to the next slash.  The move of the machine
over the scheme of a URI goes to that same place, unless something stands in front of the first
colon that no scheme contains.
-/
import UrlFilter.Proofs.Machine.Move
import UrlFilter.Proofs.Text.Runs
import UrlFilter.Query

namespace UrlFilter

/-- What follows the first colon of a text. -/
def afterColon (text : List Char) : List Char :=
  (text.dropWhile (· != ':')).drop 1

/-- What follows the first colon of a URI and the slashes behind it, up to the next slash. -/
def domainText (uri : String) : String :=
  String.ofList (((afterColon uri.toList).dropWhile (· == '/')).takeWhile (· != '/'))

/-- The bytes behind the first colon of a URI and the slashes that follow it. -/
def behindSlashes (uri : String) : List UInt8 :=
  (((utf8 uri).dropWhile (· != Byte.colon)).drop 1).dropWhile (· == Byte.slash)

/-- The text of the domain is what follows up to the next slash. -/
theorem utf8_domainText (uri : String) :
    utf8 (domainText uri) = (behindSlashes uri).takeWhile (· != Byte.slash) := by
  have hcolon : Encodes (· != ':') (· != Byte.colon) :=
    encodes_ne (show Byte.colon < 0x80 by decide)
  have hslash : Encodes (· == '/') (· == Byte.slash) :=
    encodes_eq (show Byte.slash < 0x80 by decide)
  have hother : Encodes (· != '/') (· != Byte.slash) :=
    encodes_ne (show Byte.slash < 0x80 by decide)
  rw [domainText, behindSlashes, utf8_eq_flatMap, utf8_eq_flatMap, String.toList_ofList,
    ← hother.takeWhile, ← hslash.dropWhile, afterColon, hcolon.dropWhile]
  congr 2
  cases hbehind : uri.toList.dropWhile (· != ':') with
  | nil => rfl
  | cons c rest =>
      have hhead := List.head?_dropWhile_not (· != ':') uri.toList
      rw [hbehind] at hhead
      have hc : c = ':' := by simpa using hhead
      rw [hc]
      rfl

/-- A URI without a colon has no domain. -/
theorem mem_colon_of_domainText_ne_nil {uri : String} (h : utf8 (domainText uri) ≠ []) :
    Byte.colon ∈ utf8 uri := by
  by_contra hcolon
  rw [utf8_domainText, behindSlashes,
    List.dropWhile_eq_nil_iff.2 (forall_bne_of_not_mem hcolon)] at h
  exact h rfl

namespace Query

/-- Where the domain starts, or the end of the URI if there is no domain. -/
def domainStart (query : Query) : Nat :=
  if query.span.start < query.span.stop then query.span.start else query.bytes.size

/-- Only bytes of a scheme, perhaps none, stand in front of the first colon, and there is
a colon. -/
def HasScheme (query : Query) : Prop :=
  Byte.colon ∈ utf8 query.uri ∧
    ∀ byte ∈ (utf8 query.uri).takeWhile (· != Byte.colon), isSchemeByte byte = true

/-- The domain starts behind the first colon and its slashes, or at the end if that is
earlier. -/
theorem domainStart_mk_eq_min (uri : String) :
    (mk uri).domainStart = min uri.toByteArray.size
      (advance uri.toByteArray (· == Byte.slash)
        (advance uri.toByteArray (· != Byte.colon) 0 + 1)) := by
  rw [domainStart, mk, bytes, domainSpan]
  generalize advance uri.toByteArray (· != Byte.colon) 0 + 1 = cursor
  split
  · rename_i hlt
    have hbyte := not_skip_advance hlt
    have hmoves : advance uri.toByteArray (· == Byte.slash) cursor <
        advance uri.toByteArray (· != Byte.slash)
          (advance uri.toByteArray (· == Byte.slash) cursor) := by
      rw [advance_eq _ (· != Byte.slash), if_pos ⟨hlt, by simpa using hbyte⟩]
      exact le_advance _ _ _
    rw [if_pos hmoves, Nat.min_eq_right (Nat.le_of_lt hlt)]
  · rename_i hle
    rw [if_neg (Nat.lt_irrefl 0), Nat.min_eq_left (Nat.le_of_not_lt hle)]

theorem drop_domainStart_mk (uri : String) :
    (utf8 uri).drop (mk uri).domainStart = behindSlashes uri := by
  have hsize : uri.toByteArray.size = (utf8 uri).length := rfl
  have hbehind : (utf8 uri).drop (advance uri.toByteArray (· == Byte.slash)
      (advance uri.toByteArray (· != Byte.colon) 0 + 1)) = behindSlashes uri := by
    rw [advance_eq_add_length_takeWhile, advance_eq_add_length_takeWhile,
      List.drop_zero, Nat.zero_add, ← List.drop_drop, drop_length_takeWhile,
      ← List.drop_drop, drop_length_takeWhile, behindSlashes]
  rw [domainStart_mk_eq_min, hsize, ← hbehind]
  by_cases hle : (utf8 uri).length ≤ advance uri.toByteArray (· == Byte.slash)
      (advance uri.toByteArray (· != Byte.colon) 0 + 1)
  · rw [Nat.min_eq_left hle, List.drop_length, List.drop_eq_nil_of_le hle]
  · rw [Nat.min_eq_right (Nat.le_of_not_le hle)]

theorem not_isSchemeByte_colon : isSchemeByte Byte.colon = false := by decide

theorem ne_colon_of_isSchemeByte {byte : UInt8} (h : isSchemeByte byte = true) :
    (byte != Byte.colon) = true := by
  rw [bne_iff_ne]
  rintro rfl
  rw [not_isSchemeByte_colon] at h
  contradiction

/-- The part in front of the first colon is all bytes of a scheme if a colon stands behind
bytes of a scheme at all, since no scheme contains a colon. -/
theorem hasScheme_iff {query : Query} : query.HasScheme ↔
    ∃ front rest, utf8 query.uri = front ++ Byte.colon :: rest ∧
      ∀ byte ∈ front, isSchemeByte byte = true := by
  constructor
  · rintro ⟨hcolon, hscheme⟩
    obtain ⟨front, rest, huri, hfront⟩ := List.eq_append_cons_of_mem hcolon
    rw [huri, takeWhile_append_cons (forall_bne_of_not_mem hfront)
      (bne_self_eq_false Byte.colon)] at hscheme
    exact ⟨front, rest, huri, hscheme⟩
  · rintro ⟨front, rest, huri, hscheme⟩
    have hne : ∀ byte ∈ front, (byte != Byte.colon) = true :=
      fun byte hbyte => ne_colon_of_isSchemeByte (hscheme byte hbyte)
    rw [HasScheme, huri, takeWhile_append_cons hne (bne_self_eq_false Byte.colon)]
    exact ⟨by simp, hscheme⟩

theorem HasScheme.uri_ne_empty {query : Query} (h : query.HasScheme) : query.uri ≠ "" := by
  intro hempty
  have hcolon := h.1
  rw [hempty] at hcolon
  exact List.not_mem_nil hcolon

/-- The move over the scheme of a URI goes to the start of the domain. -/
theorem HasScheme.move?_eq {uri : String} (h : (mk uri).HasScheme) :
    Instruction.skipScheme.move? uri.toByteArray 0 = some (mk uri).domainStart := by
  obtain ⟨front, rest, huri, hscheme⟩ := hasScheme_iff.1 h
  rw [uri_mk] at huri
  have hne : ∀ byte ∈ front, (byte != Byte.colon) = true :=
    fun byte hbyte => ne_colon_of_isSchemeByte (hscheme byte hbyte)
  have hstop : advance uri.toByteArray isSchemeByte 0 = front.length := by
    rw [advance_eq_add_length_takeWhile, List.drop_zero, huri,
      takeWhile_append_cons hscheme not_isSchemeByte_colon, Nat.zero_add]
  have hfirst : advance uri.toByteArray (· != Byte.colon) 0 = front.length := by
    rw [advance_eq_add_length_takeWhile, List.drop_zero, huri,
      takeWhile_append_cons hne (bne_self_eq_false Byte.colon), Nat.zero_add]
  have hcolon : byteAt uri.toByteArray front.length = Byte.colon :=
    (byteAt_eq_iff (by decide)).2 (by simp [huri])
  have hsize : front.length + 1 ≤ uri.toByteArray.size := by
    change _ ≤ (utf8 uri).length
    simp [huri]
  change (if byteAt uri.toByteArray (advance uri.toByteArray isSchemeByte 0) = Byte.colon then
    some (advance uri.toByteArray (· == Byte.slash)
      (advance uri.toByteArray isSchemeByte 0 + 1))
    else none) = _
  rw [hstop, if_pos hcolon, domainStart_mk_eq_min, hfirst,
    Nat.min_eq_right (advance_le_size hsize)]

theorem hasScheme_of_move? {query : Query} {next : Nat}
    (h : Instruction.skipScheme.move? query.bytes 0 = some next) : query.HasScheme := by
  change (if byteAt query.bytes (advance query.bytes isSchemeByte 0) = Byte.colon then
    _ else none) = _ at h
  split at h
  · rename_i hcolon
    rw [bytes, advance_eq_add_length_takeWhile, List.drop_zero, Nat.zero_add,
      byteAt_eq_iff (by decide)] at hcolon
    obtain ⟨hlt, hbyte⟩ := List.getElem?_eq_some_iff.1 hcolon
    have hbehind := drop_length_takeWhile isSchemeByte (utf8 query.uri)
    rw [List.drop_eq_getElem_cons hlt, hbyte] at hbehind
    refine hasScheme_iff.2 ⟨(utf8 query.uri).takeWhile isSchemeByte,
      (utf8 query.uri).drop (((utf8 query.uri).takeWhile isSchemeByte).length + 1), ?_,
      fun byte hbyte => List.mem_takeWhile_imp hbyte⟩
    rw [hbehind, List.takeWhile_append_dropWhile]
  · contradiction

/-- The move over the scheme and the domain agree. -/
theorem move?_skipScheme_eq_some_iff_domainStart {uri : String} {next : Nat} :
    Instruction.skipScheme.move? uri.toByteArray 0 = some next ↔
      (mk uri).HasScheme ∧ next = (mk uri).domainStart := by
  constructor
  · intro hmove
    have hscheme : (mk uri).HasScheme := hasScheme_of_move? hmove
    rw [hscheme.move?_eq] at hmove
    exact ⟨hscheme, (Option.some.inj hmove).symm⟩
  · rintro ⟨hscheme, rfl⟩
    exact hscheme.move?_eq

end Query

end UrlFilter
