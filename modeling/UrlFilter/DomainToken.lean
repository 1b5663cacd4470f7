/-
Domain tokens.

A domain constraint names domains by tokens.  A token is kept in small letters
and looked for anywhere in the domain of a request, so that it also fits inside
a longer name.
-/
import UrlFilter.Text.Quoted
import UrlFilter.Text.Search

namespace UrlFilter

/-- A text to look for in domains. -/
structure DomainToken where
  text : String
  deriving DecidableEq, Repr

namespace DomainToken

/-- The token of a text, whose ASCII capitals become small letters. -/
def ofText (text : String) : DomainToken :=
  ⟨text.toLower⟩

/-- Does the token stand somewhere in a domain? -/
def occursIn (token : DomainToken) (domain : String) : Bool :=
  occurs token.text.toList domain.toList

/-- The text that shows a token. -/
def describe (token : DomainToken) : String :=
  "DomainMatcher(" ++ quoted token.text ++ ")"

theorem occursIn_iff {token : DomainToken} {domain : String} :
    token.occursIn domain = true ↔ token.text.toList <:+: domain.toList :=
  occurs_iff

end DomainToken

end UrlFilter
