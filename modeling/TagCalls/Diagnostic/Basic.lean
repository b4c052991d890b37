import TagCalls.Transpile.Error

/-!
Problems found in a file.
-/
namespace TagCalls

inductive Severity where
  | error
  | warning
  deriving DecidableEq, Repr

structure Diagnostic where
  severity : Severity
  /-- Where in the file, if known. -/
  span : Option Span
  message : Text
  code : Text
  deriving DecidableEq, Repr

namespace Diagnostic

/-- The diagnostic for a script that begins at offset `base` of its file. A span into the result of
the lowering says nothing about the file. It fails if the span leaves the range of offsets. -/
def ofError? (error : TranspileError) (base : Nat) : Option Diagnostic :=
  match error, error.span? with
  | .invalidOutput .., _ => some ⟨.error, none, error.message, error.code⟩
  | _, none => some ⟨.error, none, error.message, error.code⟩
  | _, some span => (span.shift? base).map fun span => ⟨.error, some span, error.message, error.code⟩

def start (diagnostic : Diagnostic) : Nat := (diagnostic.span.map (·.start)).getD 0

def stop (diagnostic : Diagnostic) : Nat := (diagnostic.span.map (·.stop)).getD 0

end Diagnostic
end TagCalls
