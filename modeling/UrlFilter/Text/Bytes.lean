/-
Bytes under a cursor.

A text is matched as its UTF-8 bytes, and a cursor is any natural number: from
the end of the bytes onwards it reads the terminator byte.  The one moving
operation is `advance`, which carries the cursor over the longest run of bytes
of a class.
-/

namespace UrlFilter

/-- The UTF-8 bytes of a text, in order. -/
def utf8 (text : String) : List UInt8 :=
  text.toByteArray.data.toList

/-- The bytes of a text are those of its characters, one after the other. -/
theorem utf8_eq_flatMap (text : String) :
    utf8 text = text.toList.flatMap String.utf8EncodeChar := by
  rw [utf8, ← String.utf8Encode_toList, List.utf8Encode]
  exact List.toList_data_toByteArray

theorem utf8_append (left right : String) : utf8 (left ++ right) = utf8 left ++ utf8 right := by
  simp only [utf8_eq_flatMap, String.toList_append, List.flatMap_append]

/-- The byte that a cursor reads at the end of the bytes and beyond. -/
def terminator : UInt8 := 0

/-- The byte under the cursor, which is the terminator from the end onwards. -/
def byteAt (bytes : ByteArray) (cursor : Nat) : UInt8 :=
  if h : cursor < bytes.size then bytes[cursor] else terminator

theorem byteAt_of_lt {bytes : ByteArray} {cursor : Nat} (h : cursor < bytes.size) :
    byteAt bytes cursor = bytes[cursor] := by
  simp [byteAt, h]

theorem byteAt_of_size_le {bytes : ByteArray} {cursor : Nat}
    (h : bytes.size ≤ cursor) : byteAt bytes cursor = terminator := by
  simp [byteAt, Nat.not_lt.2 h]

/-- Move the cursor over at most `room` bytes that all belong to `skip`. -/
def advanceWithin (bytes : ByteArray) (skip : UInt8 → Bool) : Nat → Nat → Nat
  | 0, cursor => cursor
  | room + 1, cursor =>
      if skip (byteAt bytes cursor) then advanceWithin bytes skip room (cursor + 1)
      else cursor

/-- Move the cursor to the first byte from it onwards that `skip` does not
hold of, or to the end of the bytes.  A cursor past the end stays. -/
def advance (bytes : ByteArray) (skip : UInt8 → Bool) (cursor : Nat) : Nat :=
  advanceWithin bytes skip (bytes.size - cursor) cursor

/-- One byte of `advance` at a time. -/
theorem advance_eq (bytes : ByteArray) (skip : UInt8 → Bool) (cursor : Nat) :
    advance bytes skip cursor =
      if cursor < bytes.size ∧ skip (byteAt bytes cursor) = true then
        advance bytes skip (cursor + 1)
      else cursor := by
  unfold advance
  by_cases hlt : cursor < bytes.size
  · obtain ⟨room, hroom⟩ : ∃ room, bytes.size - cursor = room + 1 :=
      ⟨bytes.size - cursor - 1, by omega⟩
    have hrest : bytes.size - (cursor + 1) = room := by omega
    rw [hroom, hrest]
    by_cases hskip : skip (byteAt bytes cursor) = true <;>
      simp [advanceWithin, hlt, hskip]
  · have hzero : bytes.size - cursor = 0 := by omega
    simp [hzero, advanceWithin, hlt]

theorem le_advanceWithin (bytes : ByteArray) (skip : UInt8 → Bool)
    (room cursor : Nat) : cursor ≤ advanceWithin bytes skip room cursor := by
  induction room generalizing cursor with
  | zero => simp [advanceWithin]
  | succ room ih =>
      by_cases hskip : skip (byteAt bytes cursor) = true
      · have := ih (cursor + 1)
        simp only [advanceWithin, hskip, if_true]
        omega
      · simp [advanceWithin, hskip]

theorem advanceWithin_le (bytes : ByteArray) (skip : UInt8 → Bool)
    (room cursor : Nat) : advanceWithin bytes skip room cursor ≤ cursor + room := by
  induction room generalizing cursor with
  | zero => simp [advanceWithin]
  | succ room ih =>
      by_cases hskip : skip (byteAt bytes cursor) = true
      · have := ih (cursor + 1)
        simp only [advanceWithin, hskip, if_true]
        omega
      · simp [advanceWithin, hskip]

/-- Every byte that is moved over belongs to `skip`. -/
theorem skip_of_lt_advanceWithin {bytes : ByteArray} {skip : UInt8 → Bool}
    {room cursor place : Nat} (hle : cursor ≤ place)
    (hlt : place < advanceWithin bytes skip room cursor) :
    skip (byteAt bytes place) = true := by
  induction room generalizing cursor with
  | zero =>
      simp only [advanceWithin] at hlt
      omega
  | succ room ih =>
      by_cases hskip : skip (byteAt bytes cursor) = true
      · simp only [advanceWithin, hskip, if_true] at hlt
        rcases Nat.eq_or_lt_of_le hle with rfl | hgt
        · exact hskip
        · exact ih hgt hlt
      · rw [advanceWithin, if_neg hskip] at hlt
        omega

/-- If there was room left, the byte that the cursor stops at does not belong to
`skip`. -/
theorem not_skip_of_advanceWithin_lt {bytes : ByteArray} {skip : UInt8 → Bool}
    {room cursor : Nat} (hlt : advanceWithin bytes skip room cursor < cursor + room) :
    skip (byteAt bytes (advanceWithin bytes skip room cursor)) = false := by
  induction room generalizing cursor with
  | zero =>
      simp only [advanceWithin] at hlt
      omega
  | succ room ih =>
      by_cases hskip : skip (byteAt bytes cursor) = true
      · simp only [advanceWithin, hskip, if_true] at hlt ⊢
        exact ih (by omega)
      · rw [advanceWithin, if_neg hskip]
        exact Bool.eq_false_iff.2 hskip

theorem le_advance (bytes : ByteArray) (skip : UInt8 → Bool) (cursor : Nat) :
    cursor ≤ advance bytes skip cursor :=
  le_advanceWithin bytes skip _ cursor

/-- A cursor within the bytes stays within them. -/
theorem advance_le_size {bytes : ByteArray} {skip : UInt8 → Bool} {cursor : Nat}
    (h : cursor ≤ bytes.size) : advance bytes skip cursor ≤ bytes.size := by
  have := advanceWithin_le bytes skip (bytes.size - cursor) cursor
  unfold advance
  omega

/-- Every byte between the start and the end of the move belongs to `skip`. -/
theorem skip_of_lt_advance {bytes : ByteArray} {skip : UInt8 → Bool} {cursor place : Nat}
    (hle : cursor ≤ place) (hlt : place < advance bytes skip cursor) :
    skip (byteAt bytes place) = true :=
  skip_of_lt_advanceWithin hle hlt

/-- A move that ends within the bytes ends at a byte that `skip` does not hold
of. -/
theorem not_skip_advance {bytes : ByteArray} {skip : UInt8 → Bool} {cursor : Nat}
    (hlt : advance bytes skip cursor < bytes.size) :
    skip (byteAt bytes (advance bytes skip cursor)) = false := by
  have hle := le_advance bytes skip cursor
  apply not_skip_of_advanceWithin_lt
  unfold advance at hlt hle
  omega

/-- ASCII capitals to small letters, every other byte to itself. -/
def lowerByte (byte : UInt8) : UInt8 :=
  if 0x41 ≤ byte ∧ byte ≤ 0x5a then byte + 0x20 else byte

end UrlFilter
