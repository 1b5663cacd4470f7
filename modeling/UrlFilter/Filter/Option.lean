/-
Options of a filter.

The options stand behind the pattern of a filter, with commas between them.  An
option is the name of a flag, a list of domains with bars between them, or a
text that means nothing here and is kept to be reported.
-/
import UrlFilter.DomainToken
import UrlFilter.Flags

namespace UrlFilter

/-- One entry of a list of domains. -/
inductive DomainClause
  /-- The domain of the request contains the token. -/
  | included (token : DomainToken)
  /-- The domain of the request does not contain the token. -/
  | excluded (token : DomainToken)
  deriving DecidableEq, Repr

namespace DomainClause

/-- The clause that an entry stands for.  A tilde in front excludes, and an
entry without a token says nothing. -/
def ofText? : List Char → Option DomainClause
  | [] => none
  | ['~'] => none
  | '~' :: token => some (excluded (DomainToken.ofText (String.ofList token)))
  | token => some (included (DomainToken.ofText (String.ofList token)))

/-- The token of an including clause. -/
def included? : DomainClause → Option DomainToken
  | included token => some token
  | excluded _ => none

/-- The token of an excluding clause. -/
def excluded? : DomainClause → Option DomainToken
  | included _ => none
  | excluded token => some token

end DomainClause

/-- What an option of a filter says. -/
inductive FilterOption
  | flag (flag : Flag)
  | domains (clauses : List DomainClause)
  | unknown (text : String)
  deriving DecidableEq, Repr

namespace FilterOption

/-- What a list of domains starts with. -/
def domainKeyword : List Char := ['d', 'o', 'm', 'a', 'i', 'n', '=']

/-- The option that a text stands for. -/
def ofText (text : List Char) : FilterOption :=
  match Flag.ofOptionName? text with
  | some name => flag name
  | none =>
      match domainKeyword.isPrefixOf? text with
      | some entries => domains ((entries.splitOn '|').filterMap DomainClause.ofText?)
      | none => unknown (String.ofList text)

/-- The options of a text with commas between them. -/
def listOfText (text : List Char) : List FilterOption :=
  (text.splitOn ',').map ofText

/-- The flag that an option sets. -/
def flag? : FilterOption → Option Flag
  | flag name => some name
  | domains _ => none
  | unknown _ => none

/-- The clauses that an option adds. -/
def clauses : FilterOption → List DomainClause
  | flag _ => []
  | domains clauses => clauses
  | unknown _ => []

/-- The text of an option that means nothing. -/
def unknown? : FilterOption → Option String
  | flag _ => none
  | domains _ => none
  | unknown text => some text

end FilterOption

end UrlFilter
