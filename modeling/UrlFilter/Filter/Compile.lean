/-
Compiling filters.
-/
import UrlFilter.CompileError
import UrlFilter.Line
import UrlFilter.Rule

namespace UrlFilter

/-- The rule of a filter, or the first fault of its pattern. -/
def Filter.compile (filter : Filter) : Except CompileError Rule :=
  match Pattern.compile filter.pattern filter.flags with
  | .ok instructions =>
      .ok (Rule.assemble filter.text filter.pattern instructions filter.flags
        filter.included filter.excluded)
  | .error fault => .error ⟨filter.text, filter.pattern, fault⟩

/-- The rule of a line as it stands, if the line is a filter. -/
def compileLine (text : String) : Except CompileError (Option Rule) :=
  match Line.ofText text with
  | .filter filter => filter.compile.map some
  | .blank | .comment | .elementHiding => .ok none

end UrlFilter
