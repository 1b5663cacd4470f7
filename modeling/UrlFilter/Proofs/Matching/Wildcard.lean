/-
Patterns with wildcards.

A wildcard and the byte behind it are one search, which stays on the byte that it
finds, and the machine never goes back.  So the rest of a segment behind a wildcard
has to stand from the nearest place of the first byte of the segment on, that byte
included, and no search goes past a zero byte.
-/
import UrlFilter.Proofs.Matching.Fixed

namespace UrlFilter

/-- The segments, in lower case, stand in a URI one behind the other from a cursor
on, whatever stands between them. -/
inductive SegmentsOccur (uri : List UInt8) : Nat → List (List UInt8) → Prop
  | nil {cursor : Nat} : SegmentsOccur uri cursor []
  | cons {cursor place : Nat} {segment : List UInt8} {later : List (List UInt8)} :
      cursor ≤ place → segment.map lowerByte <+: uri.drop place →
      SegmentsOccur uri (place + segment.length) later →
      SegmentsOccur uri cursor (segment :: later)

/-- The first place from a cursor on where a byte stands, with no zero byte on the
way. -/
structure IsNearest (uri : List UInt8) (cursor : Nat) (byte : UInt8) (place : Nat) :
    Prop where
  le : cursor ≤ place
  found : uri[place]? = some byte
  passed : ∀ between, cursor ≤ between → between < place →
    uri[between]? ≠ some byte ∧ uri[between]? ≠ some terminator

/-- The segments, in lower case, follow a cursor as searches find them.  The first
byte of each is looked for, and from where it is found the other bytes stand. -/
inductive SegmentsFollow (uri : List UInt8) : Nat → List (List UInt8) → Prop
  | nil {cursor : Nat} : SegmentsFollow uri cursor []
  | cons {cursor place : Nat} {byte : UInt8} {others : List UInt8}
      {later : List (List UInt8)} :
      IsNearest uri cursor (lowerByte byte) place →
      others.map lowerByte <+: uri.drop place →
      SegmentsFollow uri (place + others.length) later →
      SegmentsFollow uri cursor ((byte :: others) :: later)

theorem segmentsFollow_cons_iff {uri : List UInt8} {cursor : Nat} {byte : UInt8}
    {others : List UInt8} {later : List (List UInt8)} :
    SegmentsFollow uri cursor ((byte :: others) :: later) ↔
      ∃ place, IsNearest uri cursor (lowerByte byte) place ∧
        others.map lowerByte <+: uri.drop place ∧
          SegmentsFollow uri (place + others.length) later := by
  constructor
  · intro h
    cases h with
    | cons hnearest hothers hlater => exact ⟨_, hnearest, hothers, hlater⟩
  · intro h
    obtain ⟨place, hnearest, hothers, hlater⟩ := h
    exact .cons hnearest hothers hlater

/-- The tokens of a segment behind a wildcard. -/
def segmentTokens : List UInt8 → List Token
  | [] => []
  | byte :: others => .seek (.literal byte) :: (others.map Atom.literal).map .here

/-- The tokens of the segments between the wildcards of a pattern. -/
def wildcardTokens (first : List UInt8) (later : List (List UInt8)) : List Token :=
  (first.map Atom.literal).map .here ++ later.flatMap segmentTokens

theorem flatMap_bytes_map_literal (bytes : List UInt8) :
    ((bytes.map Atom.literal).map Token.here).flatMap Token.bytes = bytes := by
  rw [flatMap_bytes_map_here, List.map_map]
  exact List.map_id bytes

theorem atom_isPlain_of_mem_map_literal {bytes : List UInt8}
    (hbytes : ∀ byte ∈ bytes, IsPlainByte byte) :
    ∀ token ∈ (bytes.map Atom.literal).map Token.here, token.atom.IsPlain := by
  intro token htoken
  rw [List.map_map] at htoken
  obtain ⟨byte, hbyte, rfl⟩ := List.mem_map.1 htoken
  exact hbytes byte hbyte

theorem flatMap_bytes_segmentTokens {segment : List UInt8} (hne : segment ≠ []) :
    (segmentTokens segment).flatMap Token.bytes = Byte.star :: segment := by
  cases segment with
  | nil => exact absurd rfl hne
  | cons byte others =>
      rw [segmentTokens, List.flatMap_cons, flatMap_bytes_map_literal]
      rfl

theorem length_segmentTokens (segment : List UInt8) :
    (segmentTokens segment).length = segment.length := by
  cases segment with
  | nil => rfl
  | cons byte others => simp [segmentTokens]

theorem length_wildcardTokens (first : List UInt8) (later : List (List UInt8)) :
    (wildcardTokens first later).length = (first :: later).flatten.length := by
  simp [wildcardTokens, List.length_flatMap, List.length_flatten, length_segmentTokens]

/-- The text of the tokens is the segments with a wildcard between any two. -/
theorem flatMap_bytes_wildcardTokens {first : List UInt8} {later : List (List UInt8)}
    (hne : ∀ segment ∈ later, segment ≠ []) :
    (wildcardTokens first later).flatMap Token.bytes =
      [Byte.star].intercalate (first :: later) := by
  rw [wildcardTokens, List.flatMap_append, flatMap_bytes_map_literal]
  induction later generalizing first with
  | nil => simp
  | cons segment later ih =>
      have hsegment := hne segment List.mem_cons_self
      have hlater : ∀ other ∈ later, other ≠ [] :=
        fun other hother => hne other (List.mem_cons_of_mem _ hother)
      rw [List.intercalate_cons_cons, ← ih hlater, List.flatMap_cons, List.flatMap_append,
        flatMap_bytes_segmentTokens hsegment]
      simp

theorem atom_isPlain_of_mem_wildcardTokens {first : List UInt8}
    {later : List (List UInt8)}
    (hbytes : ∀ segment ∈ first :: later, ∀ byte ∈ segment, IsPlainByte byte) :
    ∀ token ∈ wildcardTokens first later, token.atom.IsPlain := by
  intro token htoken
  rcases List.mem_append.1 htoken with htoken | htoken
  · exact atom_isPlain_of_mem_map_literal (hbytes first List.mem_cons_self) token htoken
  · obtain ⟨segment, hsegment, htoken⟩ := List.mem_flatMap.1 htoken
    have hplain := hbytes segment (List.mem_cons_of_mem _ hsegment)
    cases segment with
    | nil => cases htoken
    | cons byte others =>
        have hothers : ∀ other ∈ others, IsPlainByte other :=
          fun other hother => hplain other (List.mem_cons_of_mem _ hother)
        rcases List.mem_cons.1 htoken with rfl | htoken
        · exact hplain byte List.mem_cons_self
        · exact atom_isPlain_of_mem_map_literal hothers token htoken

/-- A search for a byte goes to the nearest place. -/
theorem run_seek_literal_iff {byte : UInt8} (hurl : isUrlByte byte = true)
    {text : String} {cursor : Nat} {rest : List Instruction} :
    run text.toByteArray ((Token.seek (.literal byte)).instruction false :: rest)
        cursor = true ↔
      ∃ place, IsNearest (utf8 text) cursor (lowerByte byte) place ∧
        run text.toByteArray rest place = true := by
  have hatom : (Atom.literal byte).IsWritable := hurl
  have hfits : ∀ place, Operand.fits ((Atom.literal byte).operand false)
      (byteAt text.toByteArray place) = true ↔ (utf8 text)[place]? = some (lowerByte byte) :=
    fun place => hatom.fits_operand_iff
  rw [run_seek_iff]
  constructor
  · intro h
    obtain ⟨place, hle, hfound, hpassed, hrest⟩ := h
    have hfoundAt := (hfits place).1 hfound
    have hlength := (List.getElem?_eq_some_iff.1 hfoundAt).1
    refine ⟨place, ⟨hle, hfoundAt, ?_⟩, hrest⟩
    intro between hfrom hto
    obtain ⟨hother, hterminator⟩ := hpassed between hfrom hto
    refine ⟨fun hbyte => ?_, ?_⟩
    · rw [(hfits between).2 hbyte] at hother
      contradiction
    · rw [getElem?_utf8_of_lt (hto.trans hlength)]
      exact fun hzero => hterminator (Option.some.inj hzero)
  · intro h
    obtain ⟨place, hnearest, hrest⟩ := h
    have hlength := (List.getElem?_eq_some_iff.1 hnearest.found).1
    refine ⟨place, hnearest.le, (hfits place).2 hnearest.found, ?_, hrest⟩
    intro between hfrom hto
    obtain ⟨hother, hterminator⟩ := hnearest.passed between hfrom hto
    rw [getElem?_utf8_of_lt (hto.trans hlength)] at hterminator
    refine ⟨Bool.eq_false_iff.2 fun hfit => hother ((hfits between).1 hfit), ?_⟩
    exact fun hzero => hterminator (congrArg some hzero)

/-- A run over bytes succeeds exactly if they stand from the cursor on. -/
theorem run_literals_iff {bytes : List UInt8}
    (hurl : ∀ byte ∈ bytes, isUrlByte byte = true) {text : String} {cursor : Nat}
    {rest : List Instruction} :
    run text.toByteArray
        (((bytes.map Atom.literal).map Token.here).map (Token.instruction false) ++ rest)
        cursor = true ↔
      bytes.map lowerByte <+: (utf8 text).drop cursor ∧
        run text.toByteArray rest (cursor + bytes.length) = true := by
  have hwritable : ∀ item ∈ bytes.map Atom.literal, item.IsWritable := by
    intro item hitem
    obtain ⟨byte, hbyte, rfl⟩ := List.mem_map.1 hitem
    exact hurl byte hbyte
  rw [run_items_iff hwritable, List.length_map]
  refine and_congr_left fun _ => ?_
  simp only [List.prefix_iff_getElem?, List.getElem?_drop, List.length_map,
    List.getElem_map]
  constructor
  · intro htakes index hindex
    exact htakes index _ (by rw [List.getElem?_map, List.getElem?_eq_getElem hindex]; rfl)
  · intro hstands index item hitem
    rw [List.getElem?_map, Option.map_eq_some_iff] at hitem
    obtain ⟨byte, hbyte, rfl⟩ := hitem
    obtain ⟨hindex, rfl⟩ := List.getElem?_eq_some_iff.1 hbyte
    exact hstands index hindex

/-- A run over the segments behind wildcards. -/
theorem run_segments_iff {later : List (List UInt8)}
    (hne : ∀ segment ∈ later, segment ≠ [])
    (hurl : ∀ segment ∈ later, ∀ byte ∈ segment, isUrlByte byte = true)
    {text : String} {cursor : Nat} :
    run text.toByteArray
        ((later.flatMap segmentTokens).map (Token.instruction false) ++
          [Instruction.accept]) cursor = true ↔
      SegmentsFollow (utf8 text) cursor later := by
  induction later generalizing cursor with
  | nil => simp [SegmentsFollow.nil]
  | cons segment later ih =>
      have hlater : ∀ other ∈ later, other ≠ [] :=
        fun other hother => hne other (List.mem_cons_of_mem _ hother)
      have hlaterUrl : ∀ other ∈ later, ∀ byte ∈ other, isUrlByte byte = true :=
        fun other hother => hurl other (List.mem_cons_of_mem _ hother)
      have hsegment := hurl segment List.mem_cons_self
      obtain ⟨byte, others, rfl⟩ :=
        List.exists_cons_of_ne_nil (hne segment List.mem_cons_self)
      rw [segmentsFollow_cons_iff, List.flatMap_cons, segmentTokens, List.cons_append,
        List.map_cons, List.map_append, List.cons_append, List.append_assoc,
        run_seek_literal_iff (hsegment byte List.mem_cons_self)]
      simp only [run_literals_iff fun other hother =>
        hsegment other (List.mem_cons_of_mem _ hother), ih hlater hlaterUrl]

theorem run_wildcardTokens_iff {first : List UInt8} {later : List (List UInt8)}
    (hne : ∀ segment ∈ later, segment ≠ [])
    (hurl : ∀ segment ∈ first :: later, ∀ byte ∈ segment, isUrlByte byte = true)
    {text : String} {origin : Nat} :
    run text.toByteArray
        ((wildcardTokens first later).map (Token.instruction false) ++
          [Instruction.accept]) origin = true ↔
      first.map lowerByte <+: (utf8 text).drop origin ∧
        SegmentsFollow (utf8 text) (origin + first.length) later := by
  rw [wildcardTokens, List.map_append, List.append_assoc,
    run_literals_iff (hurl first List.mem_cons_self),
    run_segments_iff hne fun segment hsegment =>
      hurl segment (List.mem_cons_of_mem _ hsegment)]

/-- A plain line of segments with wildcards between them has a rule.  The rule
accepts a URI exactly if the first segment, in lower case, stands somewhere in the
URI and the other ones follow its end as searches find them. -/
theorem accepts_iff_segmentsFollow {line : String} {first : List UInt8}
    {later : List (List UInt8)}
    (htext : utf8 line = [Byte.star].intercalate (first :: later))
    (hne : ∀ segment ∈ first :: later, segment ≠ [])
    (hbytes : ∀ segment ∈ first :: later, ∀ byte ∈ segment, IsPlainByte byte)
    (hplain : Line.IsPlain line)
    (hsize : (first :: later).flatten.length + 1 ≤ instructionLimit) :
    ∃ rule, compileLine line = .ok (some rule) ∧ ∀ mode query,
      rule.accepts mode query = true ↔
        ∃ origin, first.map lowerByte <+: (utf8 query.uri).drop origin ∧
          SegmentsFollow (utf8 query.uri) (origin + first.length) later := by
  have hlater : ∀ segment ∈ later, segment ≠ [] :=
    fun segment hsegment => hne segment (List.mem_cons_of_mem _ hsegment)
  have hurl : ∀ segment ∈ first :: later, ∀ byte ∈ segment, isUrlByte byte = true :=
    fun segment hsegment byte hbyte => (hbytes segment hsegment byte hbyte).1
  rw [← flatMap_bytes_wildcardTokens hlater] at htext
  obtain ⟨byte, others, rfl⟩ := List.exists_cons_of_ne_nil (hne first List.mem_cons_self)
  have hutf8 : utf8 "" = [] := by decide
  have hline : line ≠ "" := by
    intro hempty
    rw [hempty, hutf8] at htext
    exact List.cons_ne_nil _ _ htext.symm
  have hseek : ∀ atom,
      (wildcardTokens (byte :: others) later).head? ≠ some (.seek atom) :=
    fun atom hhead => Token.noConfusion (Option.some.inj hhead)
  have hpattern : utf8 line = Anchor.anywhere.bytes ++
      (wildcardTokens (byte :: others) later).flatMap Token.bytes := htext
  obtain ⟨rule, hrule, haccepts⟩ :=
    hplain.exists_rule_of_tokens hline hpattern
      (atom_isPlain_of_mem_wildcardTokens hbytes) hseek
      (by simpa [length_wildcardTokens, Anchor.instructions] using hsize)
  refine ⟨rule, hrule, fun mode query => ?_⟩
  rw [haccepts]
  constructor
  · intro h
    obtain ⟨-, origin, -, hmatch⟩ := h
    exact ⟨origin, (run_wildcardTokens_iff hlater hurl).1 hmatch⟩
  · intro h
    obtain ⟨origin, hfirst, hfollow⟩ := h
    have hlength := hfirst.length_le
    rw [List.length_map, List.length_drop, List.length_cons] at hlength
    have horigin : origin < (utf8 query.uri).length := by omega
    refine ⟨?_, origin, horigin, ?_⟩
    · intro hempty
      rw [hempty, hutf8] at horigin
      exact Nat.not_lt_zero _ horigin
    · exact (run_wildcardTokens_iff hlater hurl).2 ⟨hfirst, hfollow⟩

/-- A byte behind a wildcard is found behind other bytes. -/
theorem accepts_a_star_b :
    Line.IsPlain "a*b" ∧ ∃ rule, compileLine "a*b" = .ok (some rule) ∧
      rule.accepts .inert (.mk "axxxb") = true := by
  have htext : utf8 "a*b" = [Byte.star].intercalate [[0x61], [0x62]] := by decide
  have hbytes : ∀ segment ∈ [[0x61], [0x62]], ∀ byte ∈ segment, IsPlainByte byte := by
    simp only [List.mem_cons, List.not_mem_nil, or_false, forall_eq_or_imp, forall_eq]
    decide
  have hplain : Line.IsPlain "a*b" := by decide
  obtain ⟨rule, hrule, haccepts⟩ :=
    accepts_iff_segmentsFollow htext (by decide) hbytes hplain (by decide)
  have hpassed : ∀ between < 4, 1 ≤ between →
      (utf8 "axxxb")[between]? ≠ some 0x62 ∧
        (utf8 "axxxb")[between]? ≠ some terminator := by decide
  have hnearest : IsNearest (utf8 "axxxb") 1 0x62 4 :=
    ⟨by decide, by decide, fun between hfrom hto => hpassed between hto hfrom⟩
  refine ⟨hplain, rule, hrule, (haccepts .inert _).2 ⟨0, by decide, ?_⟩⟩
  exact .cons hnearest List.nil_prefix .nil

/-- Segments that occur in a URI one behind the other need not follow as searches
find them. -/
theorem not_accepts_iff_segmentsOccur :
    ¬ ∀ (line : String) (first : List UInt8) (later : List (List UInt8)),
      utf8 line = [Byte.star].intercalate (first :: later) →
      (∀ segment ∈ first :: later, segment ≠ []) →
      (∀ segment ∈ first :: later, ∀ byte ∈ segment, IsPlainByte byte) →
      Line.IsPlain line → (first :: later).flatten.length + 1 < instructionLimit →
      ∃ rule, compileLine line = .ok (some rule) ∧ ∀ mode query,
        rule.accepts mode query = true ↔
          SegmentsOccur (utf8 query.uri) 0 (first :: later) := by
  intro hclaim
  have hbytes : ∀ segment ∈ [[0x61], [0x62, 0x63]], ∀ byte ∈ segment,
      IsPlainByte byte := by
    simp only [List.mem_cons, List.not_mem_nil, or_false, forall_eq_or_imp, forall_eq]
    decide
  obtain ⟨rule, hrule, haccepts⟩ := hclaim "a*bc" [0x61] [[0x62, 0x63]]
    (by decide) (by decide) hbytes (by decide) (by decide)
  have hoccur : SegmentsOccur (utf8 "abc") 0 [[0x61], [0x62, 0x63]] :=
    .cons (Nat.le_refl 0) (by decide) (.cons (Nat.le_refl 1) (by decide) .nil)
  have hrun : ((compileLine "a*bc").toOption.join.map
      fun rule => rule.accepts .inert (.mk "abc")) = some false := by decide +kernel
  rw [hrule] at hrun
  have hrejects : rule.accepts .inert (.mk "abc") = false := Option.some.inj hrun
  rw [(haccepts .inert (.mk "abc")).2 hoccur] at hrejects
  exact Bool.noConfusion hrejects

end UrlFilter
