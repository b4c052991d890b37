import TagCalls.Tag.Scanner
import TagCalls.Transpile.Error

/-!
Lowering tags in one scan that checks the nesting: every closing tag must carry the name of the
innermost open tag, and no tag may stay open. The first tag in the way is the error.
-/
namespace TagCalls.Lowering

/-- The opening tags not yet closed, the innermost first. -/
abbrev Nesting := List Tag.Token

def Nesting.step (nesting : Nesting) (token : Tag.Token) : Except TranspileError Nesting :=
  match token.tag.kind, nesting with
  | .selfClosing, _ => .ok nesting
  | .opening, _ => .ok (token :: nesting)
  | .closing, [] => .error (.unexpected token.tag.name token.span)
  | .closing, opener :: outer =>
    if opener.tag.name = token.tag.name then .ok outer
    else .error (.mismatched opener.tag.name token.tag.name token.span)

def Nesting.run : Nesting → List Tag.Token → Except TranspileError Nesting
  | nesting, [] => .ok nesting
  | nesting, token :: tokens => do run (← nesting.step token) tokens

def emit (target : Text) (pieces : List (Text × Tag.Token)) (tail : Text) : Text :=
  pieces.flatMap (fun (gap, token) => gap ++ token.tag.call target) ++ tail

def nested (target source : Text) : Except TranspileError Text := do
  let scan := Tag.scan source
  let nesting ← Nesting.run [] scan.tokens
  match scan.ending, nesting with
  | .error failure, _ => .error (.unterminated failure.name failure.span)
  | .ok _, opener :: _ => .error (.unclosed opener.tag.name opener.span)
  | .ok tail, [] => .ok (emit target scan.pieces tail)

end TagCalls.Lowering
