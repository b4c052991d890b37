import TagCalls.Script.Number

/-!
Reading one token from the head of a text. Blanks and comments before it are passed over, and a line
break among them is remembered, because a statement may end there. What only some scripts may hold is
remarked on and left to the reader of tokens.
-/
namespace TagCalls.Script

def isLineBreak (c : Char) : Bool :=
  c == '\n' || c == '\r' || c.toNat == 0x2028 || c.toNat == 0x2029

def isSpace (c : Char) : Bool :=
  c == '\t' || c == '\x0b' || c == '\x0c' || c == ' ' || c.toNat == 0x85 || c.toNat == 0xA0 ||
    c.toNat == 0xFEFF || c.toNat == 0x1680 || (0x2000 ≤ c.toNat && c.toNat ≤ 0x200B) ||
    c.toNat == 0x202F || c.toNat == 0x205F || c.toNat == 0x3000

inductive Filler where
  | blank
  | lineComment
  | blockComment
  deriving DecidableEq, Repr

structure Skipped where
  /-- Whether a line break was there. -/
  broken : Bool
  /-- Whether a comment in the signs of pages was there. -/
  legacy : Bool := false
  deriving Repr

/-- Passes over blanks and comments; a comment that does not end leaves nothing. The signs that begin
and end a comment in a page hide the rest of the line, the latter only where a line begins. -/
def skip : Filler → Skipped → Text → Skipped × Option Text
  | .blank, s, '/' :: '/' :: t => skip .lineComment s t
  | .blank, s, '/' :: '*' :: t => skip .blockComment s t
  | .blank, s, '<' :: '!' :: '-' :: '-' :: t => skip .lineComment { s with legacy := true } t
  | .blank, ⟨true, _⟩, '-' :: '-' :: '>' :: t => skip .lineComment ⟨true, true⟩ t
  | .blockComment, s, '*' :: '/' :: t => skip .blank s t
  | .blockComment, s, [] => (s, none)
  | _, s, [] => (s, some [])
  | .blank, s, c :: t =>
    if isLineBreak c then skip .blank { s with broken := true } t
    else if isSpace c then skip .blank s t
    else (s, some (c :: t))
  | .lineComment, s, c :: t =>
    if isLineBreak c then skip .blank { s with broken := true } t else skip .lineComment s t
  | .blockComment, s, c :: t => skip .blockComment { s with broken := s.broken || isLineBreak c } t

def hexValue (digits : Text) : Nat :=
  digits.foldl (fun n c => 16 * n + (if c.isDigit then c.toNat - 48 else c.toLower.toNat - 87)) 0

def goodEscape : Text → Bool
  | 'x' :: a :: b :: _ => isHexDigit a && isHexDigit b
  | 'x' :: _ => false
  | 'u' :: '{' :: t =>
    let digits := t.takeWhile isHexDigit
    !digits.isEmpty && (t.dropWhile isHexDigit).head? == some '}' && hexValue digits ≤ 0x10FFFF
  | 'u' :: a :: b :: c :: d :: _ => isHexDigit a && isHexDigit b && isHexDigit c && isHexDigit d
  | 'u' :: _ => false
  | _ => true

def octalEscape : Text → Bool
  | '0' :: t => t.head?.any isOctalDigit
  | c :: _ => isOctalDigit c
  | [] => false

def readString (quote : Char) (octal : Bool) : Text → Except Fault (Bool × Text)
  | [] => .error .unterminatedString
  | '\\' :: '\r' :: '\n' :: t => readString quote octal t
  | '\\' :: c :: t =>
    if goodEscape (c :: t) then readString quote (octal || octalEscape (c :: t)) t else .error .badEscape
  | c :: t =>
    if c = quote then .ok (octal, t)
    else if c = '\n' ∨ c = '\r' then .error .unterminatedString
    else readString quote octal t

inductive TemplateEnd where
  | closed (rest : Text)
  | hole (rest : Text)
  deriving DecidableEq, Repr

def readTemplate (strange : Bool) : Text → Except Fault (Bool × TemplateEnd)
  | [] => .error .unterminatedTemplate
  | '\\' :: c :: t => readTemplate (strange || !goodEscape (c :: t) || octalEscape (c :: t)) t
  | '$' :: '{' :: t => .ok (strange, .hole t)
  | '`' :: t => .ok (strange, .closed t)
  | _ :: t => readTemplate strange t

def readRegularExpression : Bool → Text → Except Fault Text
  | _, [] => .error .unterminatedRegularExpression
  | inClass, '\\' :: c :: t =>
    if isLineBreak c then .error .unterminatedRegularExpression else readRegularExpression inClass t
  | inClass, c :: t =>
    if isLineBreak c then .error .unterminatedRegularExpression
    else if c = '[' then readRegularExpression true t
    else if c = ']' then readRegularExpression false t
    else if c = '/' ∧ inClass = false then .ok t
    else readRegularExpression inClass t

def readFlags (t : Text) : Except Fault Text :=
  let flags := t.takeWhile isPart
  if flags.all ("dgimsuvy".toList.contains ·) && flags.eraseDups.length == flags.length then
    .ok (t.dropWhile isPart)
  else .error .unknownFlags

def longSigns : List String :=
  [">>>=", "...", "===", "!==", "**=", "<<=", ">>=", ">>>", "&&=", "||=", "??=", "=>", "==", "!=", "<=",
   ">=", "&&", "||", "??", "++", "--", "+=", "-=", "*=", "/=", "%=", "&=", "|=", "^=", "<<", ">>", "**"]

def shortSigns : Text := "\x7b\x7d()[];,<>+-*/%&|^!~?:=.@#".toList

def readSign (c : Char) (t : Text) : Token × Text :=
  if c = '?' ∧ t.head? = some '.' ∧ ¬ t.tail.head?.any Char.isDigit then (.sign "?.", t.tail)
  else
    match longSigns.findSome? fun s => (Text.dropLiteral? s.toList (c :: t)).map (s, ·) with
    | some (s, rest) => (.sign s, rest)
    | none =>
      if shortSigns.contains c then (.sign (String.singleton c), t)
      else (.bad (.unexpectedCharacter c), t)

/-- A token, whether a line break stands before it, the text behind it, and what is remarked on it. -/
structure Lexeme where
  token : Token
  rest : Text
  afterBreak : Bool := false
  remarks : List Remark := []
  deriving Repr

def ofNumber : Except Fault Number → Lexeme
  | .ok n => { token := .number, rest := n.rest, remarks := n.remarks }
  | .error fault => { token := .bad fault, rest := [] }

def stringLexeme (quote : Char) (t : Text) : Lexeme :=
  match readString quote false t with
  | .ok (octal, rest) =>
    { token := .string (Text.dropLiteral? ("use strict".toList ++ [quote]) t).isSome, rest
      remarks := if octal then [⟨.legacyOctal, .strict⟩] else [] }
  | .error fault => { token := .bad fault, rest := [] }

def readToken : Text → Lexeme
  | [] => { token := .stop, rest := [] }
  | c :: t =>
    if isStart c then
      { token := .word (String.ofList (c :: t.takeWhile isPart)), rest := t.dropWhile isPart }
    else if c.isDigit || (c == '.' && t.head?.any Char.isDigit) then ofNumber (readNumber (c :: t))
    else if c = '"' ∨ c = '\'' then stringLexeme c t
    else if c = '`' then { token := .template, rest := t }
    else
      let (token, rest) := readSign c t
      { token, rest }

def lex (fresh : Bool) (t : Text) : Lexeme :=
  match skip .blank ⟨fresh, false⟩ t with
  | (s, none) => { token := .bad .unterminatedComment, rest := [], afterBreak := s.broken }
  | (s, some ahead) =>
    let next := readToken ahead
    { next with
      afterBreak := s.broken
      remarks := if s.legacy then ⟨.legacyComment, .modules⟩ :: next.remarks else next.remarks }

/-- What remains of a script without the byte order mark and the line for the program that runs it. -/
def dropOpening : Text → Text
  | '\ufeff' :: '#' :: '!' :: t => t.dropWhile fun c => !isLineBreak c
  | '#' :: '!' :: t => t.dropWhile fun c => !isLineBreak c
  | t => t

end TagCalls.Script
