import TagCalls.Text.Hidden

/-!
Texts in double quotes, with every character that does not show by itself written as an escape.
-/
namespace TagCalls.Text

def hexDigit (n : Nat) : Char := if n < 10 then Char.ofNat (48 + n) else Char.ofNat (87 + n)

def hex (n : Nat) : Text :=
  if n < 16 then [hexDigit n] else hex (n / 16) ++ [hexDigit (n % 16)]

def codeEscape (c : Char) : Text := "\\u\x7b".toList ++ hex c.toNat ++ "\x7d".toList

def quoteChar (c : Char) : Text :=
  match c with
  | '\x00' => "\\0".toList
  | '\t' => "\\t".toList
  | '\r' => "\\r".toList
  | '\n' => "\\n".toList
  | '"' => "\\\"".toList
  | '\\' => "\\\\".toList
  | c => if c.toNat < 0x20 || c.toNat == 0x7F || isHidden c then codeEscape c else [c]

def quoted (t : Text) : Text := '"' :: (t.flatMap quoteChar ++ ['"'])

def decimal (n : Nat) : Text := Nat.toDigits 10 n

end TagCalls.Text
