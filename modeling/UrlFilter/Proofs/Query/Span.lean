/-
The span of a domain.

A URI with a domain falls into what stands in front of its first colon, the slashes behind
the colon, the domain, and what follows from the next slash on, and there is one way only to
take it apart like this.  The scan over the bytes finds the ends of the domain, which lie
between characters since colons and slashes are ASCII, so cutting the domain out of the URI
never goes wrong.

A query keeps the span, and reads it again with every new URI.  So however often the URI was
replaced, the span is that of the URI that the query has now.
-/
import UrlFilter.Proofs.Query.Domain
import UrlFilter.Proofs.Text.Substring

namespace UrlFilter

theorem utf8_eq_nil_iff {text : String} : utf8 text = [] ↔ text = "" := by
  rw [utf8_eq_flatMap, List.flatMap_eq_nil_iff, ← String.toList_eq_nil_iff,
    List.eq_nil_iff_forall_not_mem]
  exact forall₂_congr fun c _ => iff_of_false String.utf8EncodeChar_ne_nil id

section Slice

theorem splitBytes?_zero (text : List Char) : splitBytes? text 0 = some ([], text) := by
  cases text <;> rfl

/-- A text is taken apart behind any part in its front. -/
theorem splitBytes?_append (front behind : List Char) :
    splitBytes? (front ++ behind) (front.flatMap String.utf8EncodeChar).length =
      some (front, behind) := by
  induction front with
  | nil => exact splitBytes?_zero behind
  | cons c front ih =>
      rw [List.flatMap_cons, List.length_append, String.length_utf8EncodeChar, List.cons_append]
      have hsize : 0 < c.utf8Size := c.utf8Size_pos
      obtain ⟨count, hcount⟩ : ∃ count,
          c.utf8Size + (front.flatMap String.utf8EncodeChar).length = count + 1 :=
        ⟨_, (Nat.sub_add_cancel (by omega)).symm⟩
      rw [hcount, splitBytes?, if_pos (by omega), ← hcount, Nat.add_sub_cancel_left, ih]
      rfl

/-- Nothing is lost, and the place is the end of the first part. -/
theorem eq_append_of_splitBytes? {text front behind : List Char} {count : Nat}
    (h : splitBytes? text count = some (front, behind)) :
    text = front ++ behind ∧ count = (front.flatMap String.utf8EncodeChar).length := by
  induction text generalizing front count with
  | nil =>
      cases count with
      | zero =>
          cases h
          exact ⟨rfl, rfl⟩
      | succ count => contradiction
  | cons c rest ih =>
      cases count with
      | zero =>
          cases h
          exact ⟨rfl, rfl⟩
      | succ count =>
          rw [splitBytes?] at h
          split at h
          · rename_i hle
            obtain ⟨⟨others, _⟩, hothers, heq⟩ := Option.map_eq_some_iff.1 h
            cases heq
            obtain ⟨rfl, hcount⟩ := ih hothers
            refine ⟨rfl, ?_⟩
            rw [List.flatMap_cons, List.length_append, String.length_utf8EncodeChar]
            omega
          · contradiction

/-- A slice stands in the text between two places, and these are the ends of the span. -/
theorem Span.slice?_eq_some_iff {span : Span} {text slice : String} :
    span.slice? text = some slice ↔
      ∃ front behind, text = front ++ slice ++ behind ∧
        span = ⟨(utf8 front).length, (utf8 (front ++ slice)).length⟩ := by
  obtain ⟨start, stop⟩ := span
  simp only [slice?]
  constructor
  · intro hslice
    split at hslice
    · rename_i hle
      obtain ⟨⟨front, behind⟩, hfront, hbehind⟩ := Option.bind_eq_some_iff.1 hslice
      obtain ⟨⟨within, rest⟩, hwithin, hresult⟩ := Option.bind_eq_some_iff.1 hbehind
      obtain ⟨htext, hstart⟩ := eq_append_of_splitBytes? hfront
      obtain ⟨rfl, hstop⟩ := eq_append_of_splitBytes? hwithin
      obtain rfl := Option.some.inj hresult
      refine ⟨String.ofList front, String.ofList rest, ?_, ?_⟩
      · rw [← String.toList_inj, htext]
        simp
      · rw [utf8_append, List.length_append, utf8_eq_flatMap, utf8_eq_flatMap,
          String.toList_ofList, String.toList_ofList, ← hstart, ← hstop,
          Nat.add_sub_cancel' hle]
    · contradiction
  · rintro ⟨front, behind, rfl, hspan⟩
    obtain ⟨rfl, rfl⟩ := Span.mk.inj hspan
    have hstop : (utf8 (front ++ slice)).length - (utf8 front).length =
        (utf8 slice).length := by
      rw [utf8_append, List.length_append]
      omega
    rw [if_pos (by rw [utf8_append, List.length_append]; omega), hstop]
    simp only [utf8_eq_flatMap, String.toList_append, List.append_assoc]
    rw [splitBytes?_append, Option.bind_eq_bind, Option.bind_some, splitBytes?_append]
    exact congrArg some (String.ofList_toList)

end Slice

/-- The parts of a URI that has a domain. -/
structure Parts (uri front slashes domain rest : String) : Prop where
  uri_eq : uri = front ++ ":" ++ slashes ++ domain ++ rest
  colon_not_mem : ':' ∉ front.toList
  eq_slash : ∀ c ∈ slashes.toList, c = '/'
  domain_ne_empty : domain ≠ ""
  slash_not_mem : '/' ∉ domain.toList
  rest_begins : ∀ c, rest.toList.head? = some c → c = '/'

section Parts

variable {uri front slashes domain rest : String} (h : Parts uri front slashes domain rest)
include h

theorem Parts.toList_uri : uri.toList =
    front.toList ++ ':' :: (slashes.toList ++ (domain.toList ++ rest.toList)) := by
  simp [h.uri_eq]

theorem Parts.bne_colon : ∀ c ∈ front.toList, (c != ':') = true :=
  forall_bne_of_not_mem h.colon_not_mem

theorem Parts.beq_slash : ∀ c ∈ slashes.toList, (c == '/') = true :=
  fun c hc => beq_iff_eq.2 (h.eq_slash c hc)

theorem Parts.bne_slash : ∀ c ∈ domain.toList, (c != '/') = true :=
  forall_bne_of_not_mem h.slash_not_mem

/-- The slashes end where the domain begins. -/
theorem Parts.not_slash_behind_slashes :
    ∀ c, (domain.toList ++ rest.toList).head? = some c → (c == '/') = false := by
  intro c hc
  cases hdomain : domain.toList with
  | nil => exact absurd (String.toList_eq_nil_iff.1 hdomain) h.domain_ne_empty
  | cons first others =>
      rw [hdomain, List.cons_append, List.head?_cons, Option.some.injEq] at hc
      have hfirst := h.bne_slash first (by rw [hdomain]; exact List.mem_cons_self)
      simpa [← hc] using hfirst

/-- The domain ends where a slash follows. -/
theorem Parts.slash_behind_domain : ∀ c, rest.toList.head? = some c → (c != '/') = false := by
  intro c hc
  simp [h.rest_begins c hc]

theorem Parts.toList_front : front.toList = uri.toList.takeWhile (· != ':') := by
  rw [h.toList_uri, takeWhile_append_cons h.bne_colon (by decide)]

theorem Parts.afterColon_eq :
    afterColon uri.toList = slashes.toList ++ (domain.toList ++ rest.toList) := by
  rw [afterColon, h.toList_uri, dropWhile_append_of_head? h.bne_colon (by simp)]
  rfl

theorem Parts.toList_slashes :
    slashes.toList = (afterColon uri.toList).takeWhile (· == '/') := by
  rw [h.afterColon_eq, takeWhile_append_of_head? h.beq_slash h.not_slash_behind_slashes]

theorem Parts.behind_slashes :
    (afterColon uri.toList).dropWhile (· == '/') = domain.toList ++ rest.toList := by
  rw [h.afterColon_eq, dropWhile_append_of_head? h.beq_slash h.not_slash_behind_slashes]

theorem Parts.toList_domain :
    domain.toList = ((afterColon uri.toList).dropWhile (· == '/')).takeWhile (· != '/') := by
  rw [h.behind_slashes, takeWhile_append_of_head? h.bne_slash h.slash_behind_domain]

theorem Parts.toList_rest :
    rest.toList = ((afterColon uri.toList).dropWhile (· == '/')).dropWhile (· != '/') := by
  rw [h.behind_slashes, dropWhile_append_of_head? h.bne_slash h.slash_behind_domain]

/-- There is one way only to take a URI apart. -/
theorem Parts.unique {front' slashes' domain' rest' : String}
    (h' : Parts uri front' slashes' domain' rest') :
    front' = front ∧ slashes' = slashes ∧ domain' = domain ∧ rest' = rest := by
  refine ⟨?_, ?_, ?_, ?_⟩
  · rw [← String.toList_inj, h.toList_front, h'.toList_front]
  · rw [← String.toList_inj, h.toList_slashes, h'.toList_slashes]
  · rw [← String.toList_inj, h.toList_domain, h'.toList_domain]
  · rw [← String.toList_inj, h.toList_rest, h'.toList_rest]

/-- The span goes from the end of the slashes to the end of the domain. -/
theorem Parts.domainSpan_eq : domainSpan uri.toByteArray =
    ⟨(utf8 (front ++ ":" ++ slashes)).length,
      (utf8 (front ++ ":" ++ slashes ++ domain)).length⟩ := by
  have hcolon : Encodes (· != ':') (· != Byte.colon) :=
    encodes_ne (show Byte.colon < 0x80 by decide)
  have hslash : Encodes (· == '/') (· == Byte.slash) :=
    encodes_eq (show Byte.slash < 0x80 by decide)
  have hother : Encodes (· != '/') (· != Byte.slash) :=
    encodes_ne (show Byte.slash < 0x80 by decide)
  have huri := h.toList_uri
  -- The three moves of the scan, each from where the one before it has stopped.
  have hfirst := hcolon.advance_eq [] huri h.bne_colon (by simp)
  have hsecond := hslash.advance_eq (front.toList ++ [':']) (by simpa using huri)
    h.beq_slash h.not_slash_behind_slashes
  have hthird := hother.advance_eq (front.toList ++ [':'] ++ slashes.toList)
    (by simpa using huri) h.bne_slash h.slash_behind_domain
  have hstep : (([] ++ front.toList).flatMap String.utf8EncodeChar).length + 1 =
      ((front.toList ++ [':']).flatMap String.utf8EncodeChar).length := by
    rw [List.nil_append, List.flatMap_append, List.length_append]
    rfl
  have hwithin : ((front.toList ++ [':'] ++ slashes.toList).flatMap
      String.utf8EncodeChar).length < uri.toByteArray.size := by
    have hbytes : utf8 uri = (front.toList ++ [':'] ++ slashes.toList).flatMap
        String.utf8EncodeChar ++ (utf8 domain ++ utf8 rest) := by
      simp [utf8_eq_flatMap, huri]
    have hdomain := List.length_pos_iff.2 (mt utf8_eq_nil_iff.1 h.domain_ne_empty)
    change _ < (utf8 uri).length
    rw [hbytes, List.length_append, List.length_append]
    omega
  rw [List.flatMap_nil, List.length_nil] at hfirst
  rw [domainSpan, hfirst, hstep, hsecond, if_pos hwithin, hthird]
  simp only [utf8_eq_flatMap, String.toList_append]
  rfl

end Parts

/-- A URI with a domain can be taken apart. -/
theorem exists_parts {uri : String} (h : domainText uri ≠ "") :
    ∃ front slashes rest, Parts uri front slashes (domainText uri) rest := by
  have hcolon : ':' ∈ uri.toList :=
    (mem_utf8_iff (by decide)).1 (mem_colon_of_domainText_ne_nil (mt utf8_eq_nil_iff.1 h))
  obtain ⟨front, behind, huri, hfront⟩ := List.eq_append_cons_of_mem hcolon
  have hbehind : afterColon uri.toList = behind := by
    rw [afterColon, huri, dropWhile_append_of_head? (forall_bne_of_not_mem hfront) (by simp)]
    rfl
  have hdomain : (domainText uri).toList =
      (behind.dropWhile (· == '/')).takeWhile (· != '/') := by
    rw [domainText, String.toList_ofList, hbehind]
  refine ⟨String.ofList front, String.ofList (behind.takeWhile (· == '/')),
    String.ofList ((behind.dropWhile (· == '/')).dropWhile (· != '/')), ?_⟩
  constructor
  · rw [← String.toList_inj, huri]
    simp [hdomain]
  · rwa [String.toList_ofList]
  · intro c hc
    rw [String.toList_ofList] at hc
    simpa using List.mem_takeWhile_imp hc
  · exact h
  · intro hslash
    rw [hdomain] at hslash
    exact absurd (List.mem_takeWhile_imp hslash) (by decide)
  · intro c hc
    rw [String.toList_ofList] at hc
    have hlast := List.head?_dropWhile_not (· != '/') (behind.dropWhile (· == '/'))
    rw [hc] at hlast
    simpa using hlast

/-- What follows the slashes begins with no slash, so the domain is empty only if nothing
follows. -/
theorem domainText_eq_empty_iff {uri : String} :
    domainText uri = "" ↔ behindSlashes uri = [] := by
  rw [← utf8_eq_nil_iff, utf8_domainText]
  constructor
  · intro h
    cases hbehind : behindSlashes uri with
    | nil => rfl
    | cons byte others =>
        have hfirst : (behindSlashes uri).head? = some byte := by rw [hbehind, List.head?_cons]
        have hbyte := List.head?_dropWhile_not (· == Byte.slash)
          (((utf8 uri).dropWhile (· != Byte.colon)).drop 1)
        rw [← behindSlashes, hfirst] at hbyte
        have hne : (byte != Byte.slash) = true := by simpa using hbyte
        rw [hbehind, List.takeWhile_cons, if_pos hne] at h
        exact absurd h (List.cons_ne_nil _ _)
  · intro h
    rw [h, List.takeWhile_nil]

/-- There is a domain exactly if something else than slashes stands behind the first colon. -/
theorem domainText_ne_empty_iff {uri : String} : domainText uri ≠ "" ↔
    ∃ front behind, utf8 uri = front ++ Byte.colon :: behind ∧ Byte.colon ∉ front ∧
      ∃ byte ∈ behind, byte ≠ Byte.slash := by
  constructor
  · intro h
    obtain ⟨front, slashes, rest, hparts⟩ := exists_parts h
    obtain ⟨byte, others, hdomain⟩ := List.exists_cons_of_ne_nil (mt utf8_eq_nil_iff.1 h)
    have hslash : Byte.slash ∉ utf8 (domainText uri) :=
      mt (mem_utf8_iff (by decide)).1 hparts.slash_not_mem
    refine ⟨utf8 front, utf8 slashes ++ (utf8 (domainText uri) ++ utf8 rest), ?_, ?_, byte, ?_,
      ?_⟩
    · rw [utf8_eq_flatMap uri, hparts.toList_uri]
      simp only [List.flatMap_append, List.flatMap_cons, utf8_eq_flatMap]
      rfl
    · exact mt (mem_utf8_iff (by decide)).1 hparts.colon_not_mem
    · simp [hdomain]
    · rintro rfl
      exact hslash (by simp [hdomain])
  · rintro ⟨front, behind, huri, hfront, byte, hbyte, hne⟩ hempty
    rw [domainText_eq_empty_iff, behindSlashes, huri,
      dropWhile_append_of_head? (forall_bne_of_not_mem hfront) (by simp), List.drop_one,
      List.tail_cons, List.dropWhile_eq_nil_iff] at hempty
    exact hne (beq_iff_eq.1 (hempty byte hbyte))

/-- Without a domain the span is the empty one at the start. -/
theorem domainSpan_eq_of_domainText_eq_empty {uri : String} (h : domainText uri = "") :
    domainSpan uri.toByteArray = ⟨0, 0⟩ := by
  have hdrop := Query.drop_domainStart_mk uri
  rw [domainText_eq_empty_iff.1 h, List.drop_eq_nil_iff, Query.domainStart_mk_eq_min] at hdrop
  have hend : ¬ advance uri.toByteArray (· == Byte.slash)
      (advance uri.toByteArray (· != Byte.colon) 0 + 1) < uri.toByteArray.size :=
    Nat.not_lt.2 (Nat.le_trans hdrop (Nat.min_le_right _ _))
  rw [domainSpan, if_neg hend]

/-- The scan over the bytes finds the domain. -/
theorem slice?_domainSpan (uri : String) :
    (domainSpan uri.toByteArray).slice? uri = some (domainText uri) := by
  rw [Span.slice?_eq_some_iff]
  by_cases hempty : domainText uri = ""
  · refine ⟨"", uri, by simp [hempty], ?_⟩
    rw [domainSpan_eq_of_domainText_eq_empty hempty, hempty]
    rfl
  · obtain ⟨front, slashes, rest, hparts⟩ := exists_parts hempty
    exact ⟨front ++ ":" ++ slashes, rest, hparts.uri_eq, hparts.domainSpan_eq⟩

namespace Query

/-- Is the span that a query keeps the one of its URI? -/
def SpanFits (query : Query) : Prop := query.span = domainSpan query.bytes

theorem spanFits_mk (uri : String) : (mk uri).SpanFits := rfl

/-- Whatever span a query has kept, it fits when the URI is replaced. -/
theorem spanFits_setUri (query : Query) (uri : String) : (query.setUri uri).SpanFits := rfl

/-- The query with one URI after the other. -/
def setUris (query : Query) (uris : List String) : Query :=
  uris.foldl setUri query

/-- A span that fits goes on to fit, through any number of replacements. -/
theorem SpanFits.setUris {query : Query} (h : query.SpanFits) (uris : List String) :
    (query.setUris uris).SpanFits := by
  induction uris generalizing query with
  | nil => exact h
  | cons uri uris ih => exact ih (spanFits_setUri query uri)

theorem uri_setUris (query : Query) (uris : List String) :
    (query.setUris uris).uri = uris.getLastD query.uri := by
  induction uris generalizing query with
  | nil => rfl
  | cons uri uris ih =>
      rw [List.getLastD_cons]
      exact ih (query.setUri uri)

section

variable {query : Query} (h : query.SpanFits)
include h

/-- The domain is there to be cut out. -/
theorem SpanFits.domain?_eq : query.domain? = some (domainText query.uri) := by
  rw [domain?, h]
  exact slice?_domainSpan query.uri

theorem SpanFits.domain_eq : query.domain = domainText query.uri := by
  rw [domain, h.domain?_eq, Option.getD_some]

end

theorem domain_mk (uri : String) : (mk uri).domain = domainText uri :=
  (spanFits_mk uri).domain_eq

/-- What the span of a query is.  It stands within the URI and between characters, so that the
domain can be cut out.  The bytes in it are the domain, which is empty exactly if nothing but
slashes stands behind a first colon.  A URI with a domain falls into its parts in one way, and the
span is where the domain stands there; without a domain it is the empty one at the start. -/
structure HasDomainSpan (query : Query) : Prop where
  start_le_stop : query.span.start ≤ query.span.stop
  stop_le : query.span.stop ≤ (utf8 query.uri).length
  start_isValid : String.Pos.Raw.IsValid query.uri ⟨query.span.start⟩
  stop_isValid : String.Pos.Raw.IsValid query.uri ⟨query.span.stop⟩
  domain?_eq : query.domain? = some query.domain
  bytes_eq : ((utf8 query.uri).drop query.span.start).take
    (query.span.stop - query.span.start) = utf8 query.domain
  domain_ne_empty_iff : query.domain ≠ "" ↔
    ∃ front behind, utf8 query.uri = front ++ Byte.colon :: behind ∧ Byte.colon ∉ front ∧
      ∃ byte ∈ behind, byte ≠ Byte.slash
  exists_parts : query.domain ≠ "" → ∃ front slashes rest,
    Parts query.uri front slashes query.domain rest ∧
      query.span = ⟨(utf8 (front ++ ":" ++ slashes)).length,
        (utf8 (front ++ ":" ++ slashes ++ query.domain)).length⟩ ∧
      ∀ front' slashes' domain' rest', Parts query.uri front' slashes' domain' rest' →
        front' = front ∧ slashes' = slashes ∧ domain' = query.domain ∧ rest' = rest
  span_eq_zero : query.domain = "" → query.span = ⟨0, 0⟩

/-- A span that fits is where the domain stands. -/
theorem SpanFits.hasDomainSpan {query : Query} (h : query.SpanFits) : query.HasDomainSpan := by
  have hslice : query.domain? = some query.domain := by rw [h.domain?_eq, h.domain_eq]
  obtain ⟨front, behind, huri, hspan⟩ := Span.slice?_eq_some_iff.1 hslice
  have hdomain := utf8_append front query.domain
  have hbytes : utf8 query.uri = utf8 front ++ utf8 query.domain ++ utf8 behind := by
    rw [← hdomain, ← utf8_append, ← huri]
  constructor
  case start_le_stop => simp [hspan, hdomain]
  case stop_le => simp [hspan, hbytes, hdomain]
  case start_isValid =>
    rw [hspan]
    refine String.Pos.Raw.isValid_iff_exists_append.2 ⟨front, query.domain ++ behind, ?_, rfl⟩
    rw [← String.append_assoc, ← huri]
  case stop_isValid =>
    rw [hspan]
    exact String.Pos.Raw.isValid_iff_exists_append.2 ⟨front ++ query.domain, behind, huri, rfl⟩
  case domain?_eq => exact hslice
  case bytes_eq => simp [hspan, hbytes, hdomain]
  case domain_ne_empty_iff =>
    rw [h.domain_eq]
    exact domainText_ne_empty_iff
  case exists_parts =>
    rw [h.domain_eq]
    intro hne
    obtain ⟨front, slashes, rest, hparts⟩ := UrlFilter.exists_parts hne
    exact ⟨front, slashes, rest, hparts, Eq.trans h hparts.domainSpan_eq,
      fun _ _ _ _ => hparts.unique⟩
  case span_eq_zero =>
    rw [h.domain_eq]
    exact fun hempty => Eq.trans h (domainSpan_eq_of_domainText_eq_empty hempty)

/-- However a query has come to its URI, it knows where the domain stands in it. -/
theorem span_of_setUris (first : String) (uris : List String) :
    ((mk first).setUris uris).uri = uris.getLastD first ∧
      ((mk first).setUris uris).HasDomainSpan :=
  ⟨uri_setUris (mk first) uris, ((spanFits_mk first).setUris uris).hasDomainSpan⟩

end Query

end UrlFilter
