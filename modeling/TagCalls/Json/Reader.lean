import TagCalls.Json.Basic

/-!
Reading JSON. A string whose escapes leave half of a surrogate pair alone is well formed, but is no
text: it is read as `none`.
-/
namespace TagCalls.Json

abbrev Read := Json (Option Text)

def isSpace (c : Char) : Bool := c == ' ' || c == '\t' || c == '\n' || c == '\r'

def dropSpace (t : Text) : Text := t.dropWhile isSpace

def hexValue? (c : Char) : Option Nat :=
  if c.isDigit then some (c.toNat - 48)
  else if 'a' ≤ c && c ≤ 'f' then some (c.toNat - 87)
  else if 'A' ≤ c && c ≤ 'F' then some (c.toNat - 55)
  else none

def hexQuad? (a b c d : Char) : Option Nat := do
  return (((← hexValue? a) * 16 + (← hexValue? b)) * 16 + (← hexValue? c)) * 16 + (← hexValue? d)

/-- A unit of a string as written: a character, or a 16-bit number given by an escape. -/
inductive StringUnit where
  | char (c : Char)
  | code (n : Nat)
  deriving DecidableEq, Repr

def isHigh (n : Nat) : Bool := 0xD800 ≤ n && n ≤ 0xDBFF

def isLow (n : Nat) : Bool := 0xDC00 ≤ n && n ≤ 0xDFFF

/-- The text of the units, if all surrogates come in pairs. -/
def decode : List StringUnit → Option Text
  | [] => some []
  | .char c :: units => (decode units).map (c :: ·)
  | .code high :: .code low :: units =>
    if isHigh high then
      if isLow low then
        (decode units).map (Char.ofNat (0x10000 + (high - 0xD800) * 0x400 + (low - 0xDC00)) :: ·)
      else none
    else if isLow high then none
    else (decode (.code low :: units)).map (Char.ofNat high :: ·)
  | .code n :: units => if isHigh n || isLow n then none else (decode units).map (Char.ofNat n :: ·)

def simpleEscape? : Char → Option Char
  | '"' => some '"'
  | '\\' => some '\\'
  | '/' => some '/'
  | 'b' => some '\x08'
  | 'f' => some '\x0c'
  | 'n' => some '\n'
  | 'r' => some '\r'
  | 't' => some '\t'
  | _ => none

def readUnits : Text → Option (List StringUnit × Text)
  | [] => none
  | '"' :: t => some ([], t)
  | '\\' :: 'u' :: a :: b :: c :: d :: t => do
    let code ← hexQuad? a b c d
    let (units, rest) ← readUnits t
    return (.code code :: units, rest)
  | '\\' :: c :: t => do
    let char ← simpleEscape? c
    let (units, rest) ← readUnits t
    return (.char char :: units, rest)
  | c :: t => do
    guard (0x20 ≤ c.toNat && c != '\\')
    let (units, rest) ← readUnits t
    return (.char c :: units, rest)

def readString (t : Text) : Option (Option Text × Text) :=
  (readUnits t).map fun (units, rest) => (decode units, rest)

def readDigits (t : Text) : Option (Text × Text) :=
  match t.takeWhile Char.isDigit with
  | [] => none
  | digits => some (digits, t.dropWhile Char.isDigit)

def readWhole : Text → Option (Text × Text)
  | '0' :: t => some (['0'], t)
  | t => readDigits t

def readFraction : Text → Option (Text × Text)
  | '.' :: t => (readDigits t).map fun (digits, rest) => ('.' :: digits, rest)
  | t => some ([], t)

def readSign : Text → Text × Text
  | '+' :: t => (['+'], t)
  | '-' :: t => (['-'], t)
  | t => ([], t)

def readExponent : Text → Option (Text × Text)
  | c :: t =>
    if c = 'e' ∨ c = 'E' then
      let (sign, behind) := readSign t
      (readDigits behind).map fun (digits, rest) => (c :: (sign ++ digits), rest)
    else some ([], c :: t)
  | [] => some ([], [])

def readNumber (t : Text) : Option (Text × Text) := do
  let (minus, t) := match t with
    | '-' :: t => (['-'], t)
    | t => ([], t)
  let (whole, t) ← readWhole t
  let (fraction, t) ← readFraction t
  let (exponent, t) ← readExponent t
  return (minus ++ whole ++ fraction ++ exponent, t)

mutual
def readValue : Nat → Text → Option (Read × Text)
  | 0, _ => none
  | depth + 1, t =>
    match dropSpace t with
    | '"' :: t => (readString t).map fun (value, rest) => (.string value, rest)
    | '[' :: t =>
      match dropSpace t with
      | ']' :: rest => some (.array [], rest)
      | t => (readItems depth t).map fun (items, rest) => (.array items, rest)
    | '{' :: t =>
      match dropSpace t with
      | '}' :: rest => some (.object [], rest)
      | t => (readFields depth t).map fun (fields, rest) => (.object fields, rest)
    | t =>
      match Text.dropLiteral? "null".toList t, Text.dropLiteral? "true".toList t,
          Text.dropLiteral? "false".toList t with
      | some rest, _, _ => some (.null, rest)
      | _, some rest, _ => some (.bool true, rest)
      | _, _, some rest => some (.bool false, rest)
      | _, _, _ => (readNumber t).map fun (lexeme, rest) => (.number lexeme, rest)

def readItems : Nat → Text → Option (List Read × Text)
  | 0, _ => none
  | depth + 1, t =>
    match readValue depth t with
    | none => none
    | some (item, t) =>
      match dropSpace t with
      | ',' :: t => (readItems depth t).map fun (items, rest) => (item :: items, rest)
      | ']' :: t => some ([item], t)
      | _ => none

def readFields : Nat → Text → Option (List (Option Text × Read) × Text)
  | 0, _ => none
  | depth + 1, t =>
    match dropSpace t with
    | '"' :: t =>
      match readString t with
      | none => none
      | some (key, t) =>
        match dropSpace t with
        | ':' :: t =>
          match readValue depth t with
          | none => none
          | some (value, t) =>
            match dropSpace t with
            | ',' :: t => (readFields depth t).map fun (fields, rest) => ((key, value) :: fields, rest)
            | '}' :: t => some ([(key, value)], t)
            | _ => none
        | _ => none
    | _ => none
end

/-- The value that a whole text is. Of two steps inwards or onwards one takes a character, so twice
the text's length is depth enough. -/
def parse? (t : Text) : Option Read := do
  let (value, rest) ← readValue (2 * t.length + 2) t
  guard (dropSpace rest).isEmpty
  return value

end TagCalls.Json
