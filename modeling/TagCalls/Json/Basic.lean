import TagCalls.Text.Quoted

/-!
JSON values and their indented form. The strings of a value are of any type: a text where a value is
written, and possibly no text at all where it is read.
-/
namespace TagCalls

inductive Json (σ : Type) where
  | null
  | bool (value : Bool)
  | number (lexeme : Text)
  | string (value : σ)
  | array (items : List (Json σ))
  | object (fields : List (σ × Json σ))
  deriving Repr

namespace Json

def escape (c : Char) : Text :=
  match c with
  | '"' => "\\\"".toList
  | '\\' => "\\\\".toList
  | '\x08' => "\\b".toList
  | '\x0c' => "\\f".toList
  | '\n' => "\\n".toList
  | '\r' => "\\r".toList
  | '\t' => "\\t".toList
  | c =>
    if c.toNat < 0x20 then
      "\\u00".toList ++ [Text.hexDigit (c.toNat / 16), Text.hexDigit (c.toNat % 16)]
    else [c]

def writeString (t : Text) : Text := '"' :: (t.flatMap escape ++ ['"'])

def newLine (depth : Nat) : Text := '\n' :: List.replicate (2 * depth) ' '

mutual
def write (depth : Nat) : Json Text → Text
  | .null => "null".toList
  | .bool value => (if value then "true" else "false").toList
  | .number lexeme => lexeme
  | .string value => writeString value
  | .array [] => "[]".toList
  | .array (item :: items) =>
    '[' :: (newLine (depth + 1) ++ write (depth + 1) item ++ writeItems (depth + 1) items ++
      newLine depth ++ [']'])
  | .object [] => "\x7b\x7d".toList
  | .object ((key, value) :: fields) =>
    '{' :: (newLine (depth + 1) ++ writeString key ++ ": ".toList ++ write (depth + 1) value ++
      writeFields (depth + 1) fields ++ newLine depth ++ ['}'])

def writeItems (depth : Nat) : List (Json Text) → Text
  | [] => []
  | item :: items => ',' :: (newLine depth ++ write depth item ++ writeItems depth items)

def writeFields (depth : Nat) : List (Text × Json Text) → Text
  | [] => []
  | (key, value) :: fields =>
    ',' :: (newLine depth ++ writeString key ++ ": ".toList ++ write depth value ++ writeFields depth fields)
end

def pretty (value : Json Text) : Text := value.write 0

def ofNat {σ : Type} (n : Nat) : Json σ := .number (Text.decimal n)

end Json
end TagCalls
