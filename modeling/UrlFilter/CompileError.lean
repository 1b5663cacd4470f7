/-
Errors of compiling a filter.
-/
import UrlFilter.Pattern.Reader
import UrlFilter.Text.Quoted

namespace UrlFilter

/-- The fault of a pattern text, with the rule that it belongs to. -/
structure CompileError where
  /-- The text of the rule. -/
  rule : String
  /-- The pattern text in its normal form. -/
  pattern : String
  fault : PatternFault
  deriving DecidableEq, Repr

namespace CompileError

/-- The text that reports an error. -/
def message (error : CompileError) : String :=
  match error.fault with
  | .invalidByte offset byte =>
      error.rule ++ ": invalid character at " ++ toString offset ++
        " (" ++ String.ofList (escapeByte byte) ++ ") in pattern " ++ quoted error.pattern
  | .tooLong =>
      error.rule ++ ": too many instructions (exceeded " ++ toString instructionLimit ++ ")"

end CompileError

end UrlFilter
