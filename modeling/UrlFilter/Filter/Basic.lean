/-
Filters.

A filter is a line taken apart: the pattern text up to the first dollar sign and
the options behind it.  Everything else about a filter is read off these two.
-/
import UrlFilter.Filter.Option
import UrlFilter.Pattern.Normal

namespace UrlFilter

/-- A URL filter.  The pattern text may still start with the mark
of an exception. -/
structure Filter where
  text : String
  patternText : String
  options : List FilterOption
  deriving DecidableEq, Repr

namespace Filter

/-- The filter of a line, which is cut at its first dollar sign. -/
def ofText (line : String) : Filter where
  text := line
  patternText := String.ofList (line.toList.takeWhile (· != '$'))
  options :=
    match line.toList.dropWhile (· != '$') with
    | [] => []
    | _ :: options => FilterOption.listOfText options

/-- The pattern text in its normal form. -/
def pattern (filter : Filter) : String :=
  Pattern.normalize filter.patternText

/-- Does the pattern text start with the mark of an exception? -/
def isException (filter : Filter) : Bool :=
  ['@', '@'].isPrefixOf filter.patternText.toList

/-- The domain clauses of all options, in order. -/
def clauses (filter : Filter) : List DomainClause :=
  filter.options.flatMap FilterOption.clauses

/-- The tokens that the domain of a request has to contain one of. -/
def included (filter : Filter) : List DomainToken :=
  filter.clauses.filterMap DomainClause.included?

/-- The tokens that the domain of a request should contain none of. -/
def excluded (filter : Filter) : List DomainToken :=
  filter.clauses.filterMap DomainClause.excluded?

/-- The flags that the options set, with the exception flag and the domain flag
where they apply. -/
def flags (filter : Filter) : Flags :=
  let named := Flags.ofList (filter.options.filterMap FilterOption.flag?)
  let marked := if filter.isException then named.insert .allow else named
  if filter.clauses.isEmpty then marked else marked.insert .domain

/-- The options that mean nothing, in order. -/
def unknownOptions (filter : Filter) : List String :=
  filter.options.filterMap FilterOption.unknown?

end Filter

end UrlFilter
