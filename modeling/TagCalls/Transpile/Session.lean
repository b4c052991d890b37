import TagCalls.Directive
import TagCalls.Lowering.Nested
import TagCalls.Lowering.Passes
import TagCalls.Text.Quoted

/-!
Transpiling one script at a time. A session fixes the function that tags call by default, how tags
are lowered to calls and whether the result is checked. A script that fails is kept unchanged, and can
still be run behind a comment that says what went wrong; that comment cannot be closed early.
-/
namespace TagCalls

inductive Attempt where
  | done (output : Text)
  | refused (error : TranspileError)
  /-- It broke down, with a reason if one is known. -/
  | crashed (reason : Option Text)
  deriving DecidableEq, Repr

abbrev Lowering := (pragma source : Text) → Attempt

inductive Mode where
  /-- Three passes that never fail. -/
  | compat
  /-- One scan that checks the nesting of tags. -/
  | strict
  deriving DecidableEq, Repr

def Mode.lowering : Mode → Lowering
  | .compat => fun pragma source => .done (Lowering.passes pragma source)
  | .strict => fun pragma source =>
    match Lowering.nested pragma source with
    | .ok output => .done output
    | .error error => .refused error

structure Problem where
  message : Text
  span : Option Span := none
  deriving DecidableEq, Repr

/-- Gives the first problem of a text that is no script. -/
abbrev Checker := Text → Option Problem

inductive Transpiled where
  | done (output pragma : Text)
  | failed (error : TranspileError) (source : Text)
  deriving DecidableEq, Repr

namespace Transpiled

def error? : Transpiled → Option TranspileError
  | .done .. => none
  | .failed error _ => some error

def commentSafe (message : Text) : Text :=
  (Pattern.word '*' ['/']).replace (fun _ => "* /".toList) message

def annotate (error : TranspileError) (source : Text) : Text :=
  "/* minijsx: transpile failed: ".toList ++ commentSafe error.message ++ " */\n".toList ++ source

def annotated? : Transpiled → Option Text
  | .done .. => none
  | .failed error source => some (annotate error source)

/-- The text that may run: a failed script only if `bestEffort` asks for it. -/
def executable? (bestEffort : Bool) : Transpiled → Option Text
  | .done output _ => some output
  | .failed error source => if bestEffort then some (annotate error source) else none

end Transpiled

structure Session where
  /-- Called by scripts without a directive. -/
  pragma : Text := Directive.defaultName
  lowering : Lowering := Mode.compat.lowering
  /-- Applied to every result, if given. -/
  checker : Option Checker := none

namespace Session

def attempt (session : Session) (pragma source : Text) : Except TranspileError Text :=
  match session.lowering pragma source with
  | .refused error => .error error
  | .crashed reason => .error (.fault (reason.getD "unknown panic".toList))
  | .done output =>
    match session.checker.bind (· output) with
    | some problem => .error (.invalidOutput problem.message problem.span)
    | none => .ok output

def transpile (session : Session) (source : Text) : Transpiled :=
  let pragma := Directive.resolve session.pragma source
  match session.attempt pragma source with
  | .ok output => .done output pragma
  | .error error => .failed error source

def describe (session : Session) : Text :=
  "TranspileSession \x7b resolver: PragmaResolver \x7b default: ".toList ++ Text.quoted session.pragma ++
    " \x7d, validate_output: ".toList ++ (if session.checker.isSome then "true" else "false").toList ++
    ", .. \x7d".toList

end Session
end TagCalls
