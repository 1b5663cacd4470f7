/-
Queries.

A query is a URI with the domain read off it.  The reading is cheap and parses
nothing: the domain is what follows the first colon and the slashes after it, up
to the next slash.  What a query keeps of the domain is where it stands, as a range
of bytes, and the text is cut out of the URI when it is asked for.
-/
import UrlFilter.CharClass

namespace UrlFilter

/-- A range of bytes, from `start` up to but without `stop`. -/
structure Span where
  start : Nat
  stop : Nat
  deriving DecidableEq, Repr

/-- A text taken apart behind its first `count` bytes.  There is no such place behind the end of
the text, and none between the bytes of a character. -/
def splitBytes? : List Char → Nat → Option (List Char × List Char)
  | text, 0 => some ([], text)
  | [], _ + 1 => none
  | c :: rest, count + 1 =>
      if c.utf8Size ≤ count + 1 then
        (splitBytes? rest (count + 1 - c.utf8Size)).map fun (front, behind) =>
          (c :: front, behind)
      else none

/-- Cut a range of bytes out of a text.  This goes wrong if the range ends in front of its start
or if one of its ends is no place of the text. -/
def Span.slice? (span : Span) (text : String) : Option String :=
  if span.start ≤ span.stop then do
    let (_, behind) ← splitBytes? text.toList span.start
    let (slice, _) ← splitBytes? behind (span.stop - span.start)
    return String.ofList slice
  else none

/-- The bytes of a URI that make up its domain.  A URI without a colon, or with
nothing but slashes after the first one, has the empty span at its start. -/
def domainSpan (bytes : ByteArray) : Span :=
  let colon := advance bytes (· != Byte.colon) 0
  let start := advance bytes (· == Byte.slash) (colon + 1)
  if start < bytes.size then ⟨start, advance bytes (· != Byte.slash) start⟩
  else ⟨0, 0⟩

/-- A URI to match, and where its domain stands. -/
structure Query where
  ofParts ::
  uri : String
  span : Span
  deriving DecidableEq, Repr

namespace Query

/-- The query without a URI. -/
def empty : Query := ofParts "" ⟨0, 0⟩

/-- The query for a URI. -/
def mk (uri : String) : Query := ofParts uri (domainSpan uri.toByteArray)

@[simp]
theorem uri_mk (uri : String) : (mk uri).uri = uri := rfl

/-- The bytes that rules are run on. -/
def bytes (query : Query) : ByteArray := query.uri.toByteArray

/-- The domain as a text, if the span can be cut out of the URI. -/
def domain? (query : Query) : Option String := query.span.slice? query.uri

/-- The domain as a text.  The span of a query can always be cut out of its URI. -/
def domain (query : Query) : String := query.domain?.getD ""

/-- The query with another URI in place of its own.  The span is read again. -/
def setUri (query : Query) (uri : String) : Query :=
  let renamed := { query with uri := uri }
  { renamed with span := domainSpan renamed.bytes }

end Query

end UrlFilter
