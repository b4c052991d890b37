import TagCalls.Script.Letter
import TagCalls.Script.Token

/-!
Number literals. Low lines may divide the digits of a number. A number that begins with a zero and
goes on with digits is octal if no digit forbids it; strict mode takes no such number.
-/
namespace TagCalls.Script

def isHexDigit (c : Char) : Bool :=
  c.isDigit || ('a' ≤ c && c ≤ 'f') || ('A' ≤ c && c ≤ 'F')

def isOctalDigit (c : Char) : Bool := '0' ≤ c && c ≤ '7'

def isBinaryDigit (c : Char) : Bool := c == '0' || c == '1'

structure Number where
  rest : Text
  remarks : List Remark := []
  deriving Repr

def digitRun (isDigit : Char → Bool) (t : Text) : Text := t.takeWhile fun c => isDigit c || c == '_'

/-- A low line stands before a digit. -/
def separatorRemarks (run : Text) : List Remark :=
  if run.getLast? == some '_' || (run.zip run.tail).contains ('_', '_') then
    [⟨.digitSeparator, .every⟩]
  else []

def Number.digits (isDigit : Char → Bool) (n : Number) : Number :=
  let run := digitRun isDigit n.rest
  ⟨n.rest.drop run.length, n.remarks ++ separatorRemarks run⟩

def Number.someDigits (kind : String) (isDigit : Char → Bool) (n : Number) : Except Fault Number :=
  if (digitRun isDigit n.rest).any isDigit then .ok (n.digits isDigit) else .error (.digitExpected kind)

/-- No name follows a number directly. -/
def Number.finish (n : Number) : Except Fault Number :=
  if n.rest.head?.any isStart then .error .nameAfterNumber else .ok n

def Number.fraction (n : Number) : Number :=
  match n.rest with
  | '.' :: t => { n with rest := t }.digits Char.isDigit
  | _ => n

def Number.exponent (n : Number) : Except Fault Number :=
  match n.rest with
  | c :: t =>
    if c = 'e' ∨ c = 'E' then
      match t with
      | [] => .error .exponentExpected
      | '+' :: t => { n with rest := t }.someDigits "a decimal" Char.isDigit
      | '-' :: t => { n with rest := t }.someDigits "a decimal" Char.isDigit
      | t => { n with rest := t }.someDigits "a decimal" Char.isDigit
    else .ok n
  | [] => .ok n

def Number.decimal (n : Number) : Except Fault Number := n.fraction.exponent >>= Number.finish

def radixNumber (kind : String) (isDigit : Char → Bool) (t : Text) : Except Fault Number := do
  let n ← Number.someDigits kind isDigit { rest := t }
  match n.rest with
  | 'n' :: t => return { n with rest := t }
  | _ => n.finish

def Number.legacy (fault : Fault) (n : Number) : Number := ⟨n.rest, n.remarks ++ [⟨fault, .strict⟩]⟩

def zeroNumber (t : Text) : Except Fault Number :=
  let run := digitRun Char.isDigit t
  let n := Number.digits Char.isDigit { rest := t }
  if run.length ≤ 1 then
    match n.rest with
    | 'n' :: t => .ok { n with rest := t }
    | _ => n.decimal
  else if run.all (fun c => isOctalDigit c || c == '_') then
    (n.legacy .legacyOctal).finish
  else (n.legacy .legacyDecimal).decimal

def readNumber : Text → Except Fault Number
  | '0' :: c :: t =>
    if c = 'x' ∨ c = 'X' then radixNumber "a hexadecimal" isHexDigit t
    else if c = 'o' ∨ c = 'O' then radixNumber "an octal" isOctalDigit t
    else if c = 'b' ∨ c = 'B' then radixNumber "a binary" isBinaryDigit t
    else zeroNumber ('0' :: c :: t)
  | '.' :: t => Number.decimal { rest := '.' :: t }
  | t =>
    let n := Number.digits Char.isDigit { rest := t }
    match n.rest with
    | 'n' :: t => .ok { n with rest := t }
    | _ => n.decimal

end TagCalls.Script
