import TagCalls.Diagnostic.Basic
import TagCalls.Diagnostic.Position
import TagCalls.Json.Basic

/-!
Diagnostics as text: two lines for a reader, one line for a program, or a JSON array. A run ends
with a summary.
-/
namespace TagCalls

inductive Format where
  | human
  | json
  | machine
  deriving DecidableEq, Repr

namespace Diagnostic

def place (position : Position) : Text :=
  ':' :: (Text.decimal position.line ++ ':' :: Text.decimal position.column)

def described (diagnostic : Diagnostic) : Text :=
  diagnostic.message ++ " (".toList ++ diagnostic.code ++ ")\n".toList

section
variable (path : Text) (lines : LineIndex) (diagnostic : Diagnostic)

def human : Text :=
  path ++ place (lines.position diagnostic.start) ++ "\n".toList ++
    (match diagnostic.severity with | .error => "Error" | .warning => "Warning").toList ++
    ": ".toList ++ diagnostic.described ++ "\n".toList

def machine : Text :=
  (match diagnostic.severity with | .error => "ERROR " | .warning => "WARNING ").toList ++
    path ++ place (lines.position diagnostic.start) ++ place (lines.position diagnostic.stop) ++
    " ".toList ++ diagnostic.described

def positionJson (position : Position) : Json Text :=
  .object [("line".toList, .ofNat position.line), ("column".toList, .ofNat position.column),
    ("offset".toList, .ofNat position.offset)]

def json : Json Text :=
  .object [
    ("type".toList, .string (match diagnostic.severity with | .error => "Error" | .warning => "Warning").toList),
    ("filename".toList, .string path),
    ("start".toList, positionJson (lines.position diagnostic.start)),
    ("end".toList, positionJson (lines.position diagnostic.stop)),
    ("message".toList, .string diagnostic.message),
    ("code".toList, .string diagnostic.code)]

end
end Diagnostic

def Format.render (format : Format) (path source : Text) (diagnostics : List Diagnostic) : Text :=
  let lines := LineIndex.of source
  match format with
  | .human => diagnostics.flatMap (Diagnostic.human path lines)
  | .json => (Json.array (diagnostics.map (Diagnostic.json path lines))).pretty
  | .machine => diagnostics.flatMap (Diagnostic.machine path lines)

structure Summary where
  files : Nat
  blocks : Nat
  errors : Nat
  warnings : Nat
  deriving DecidableEq, Repr

namespace Summary

def counted (n : Nat) (noun : Text) : Text :=
  Text.decimal n ++ ' ' :: noun ++ (if n = 1 then [] else ['s'])

def text (summary : Summary) : Text :=
  "====================================\nminijsx transpiled ".toList ++ counted summary.blocks "block".toList ++
    " in ".toList ++ counted summary.files "file".toList ++
    " with ".toList ++ counted summary.errors "error".toList ++
    " and ".toList ++ counted summary.warnings "warning".toList

end Summary
end TagCalls
