import TagCalls.Span

/-!
Why a script could not be transpiled.
-/
namespace TagCalls

inductive TranspileError where
  /-- An opening tag that is never closed. -/
  | unclosed (name : Text) (span : Span)
  /-- A closing tag with another name than the innermost open tag. -/
  | mismatched (expected found : Text) (span : Span)
  /-- A closing tag with no tag open. -/
  | unexpected (name : Text) (span : Span)
  /-- A tag with an attribute value that never ends. -/
  | unterminated (name : Text) (span : Span)
  /-- The result is no script; the span points into the result. -/
  | invalidOutput (message : Text) (span : Option Span)
  /-- The lowering broke down. -/
  | fault (message : Text)
  deriving DecidableEq, Repr

namespace TranspileError

def message : TranspileError → Text
  | .unclosed name _ => "unclosed tag: <".toList ++ name ++ ">".toList
  | .mismatched expected found _ =>
    "mismatched closing tag: expected </".toList ++ expected ++ ">, found </".toList ++ found ++ ">".toList
  | .unexpected name _ => "unexpected closing tag: </".toList ++ name ++ ">".toList
  | .unterminated name _ => "unterminated tag: <".toList ++ name
  | .invalidOutput message _ => "invalid output: ".toList ++ message
  | .fault message => "internal fault: ".toList ++ message

def span? : TranspileError → Option Span
  | .unclosed _ span => some span
  | .mismatched _ _ span => some span
  | .unexpected _ span => some span
  | .unterminated _ span => some span
  | .invalidOutput _ span => span
  | .fault _ => none

def code : TranspileError → Text
  | .unclosed .. => "unclosed-tag".toList
  | .mismatched .. => "mismatched-closing-tag".toList
  | .unexpected .. => "unexpected-closing-tag".toList
  | .unterminated .. => "unterminated-tag".toList
  | .invalidOutput .. => "invalid-output".toList
  | .fault .. => "transpile-fault".toList

end TranspileError
end TagCalls
