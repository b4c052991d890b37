import TagCalls.Script.Expr
import TagCalls.Script.Lexer

/-!
The reader of tokens, with one token ahead. A fault either stops the reading or is kept while the
reading goes on. Some faults count only in strict mode or in modules; whether a script is a module is
known late, so such faults are kept apart until it is.
-/
namespace TagCalls.Script

structure State where
  /-- The token ahead. -/
  token : Token
  /-- Whether a line break stands before that token. -/
  afterBreak : Bool
  /-- The text behind that token. -/
  rest : Text
  /-- Whether `in` is an operator here. -/
  allowIn : Bool := true
  strict : Bool := false
  isModule : Bool := false
  inFunction : Bool := false
  inAsync : Bool := false
  inGenerator : Bool := false
  /-- Whether a function around can be asked how it was called. -/
  hasTarget : Bool := false
  inLoop : Bool := false
  /-- Whether a statement around can be left by `break`. -/
  breakable : Bool := false
  /-- Whether something else than imports and exports makes the script a module. -/
  moduleSign : Bool := false
  /-- The labels of the statements around. -/
  labels : List String := []
  /-- The first fault that did not stop the reading. -/
  fault : Option Fault := none
  /-- The first fault that counts if the script is a module. -/
  deferred : Option Fault := none

abbrev Reader := EStateM Fault State

def report (fault : Fault) : Reader Unit :=
  modify fun s => { s with fault := s.fault.or (some fault) }

def reportSome : Option Fault → Reader Unit
  | some fault => report fault
  | none => pure ()

def require (fault : Fault) (holds : Bool) : Reader Unit := if holds then pure () else report fault

def defer (fault : Fault) : Reader Unit :=
  modify fun s => { s with deferred := s.deferred.or (some fault) }

/-- Reports a fault where it counts, and keeps it apart where it may count later. -/
def remark (r : Remark) : Reader Unit := do
  let s ← get
  match r.scope with
  | .every => report r.fault
  | .strict => if s.strict then report r.fault else defer r.fault
  | .modules => if s.isModule then report r.fault else defer r.fault

def enterModule : Reader Unit :=
  modify fun s => { s with isModule := true, strict := true, fault := s.fault.or s.deferred, deferred := none }

def jump (rest : Text) : Reader Unit := do
  let next := lex false rest
  modify ({ · with token := next.token, afterBreak := next.afterBreak, rest := next.rest })
  next.remarks.forM remark

def advance : Reader Unit := do jump (← get).rest

def following : Reader Token := return (lex false (← get).rest).token

def sees (sign : String) : Reader Bool := return (← get).token == .sign sign

def seesWord (word : String) : Reader Bool := return (← get).token == .word word

def accept (sign : String) : Reader Bool := do
  if ← sees sign then
    advance
    return true
  else return false

def acceptWord (word : String) : Reader Bool := do
  if ← seesWord word then
    advance
    return true
  else return false

def expect (sign : String) : Reader Unit := do
  unless ← accept sign do throw (.expected sign (← get).token.describe)

def expectWord (word : String) : Reader Unit := do
  unless ← acceptWord word do throw (.expected word (← get).token.describe)

def withIn {α : Type} (allowIn : Bool) (reader : Reader α) : Reader α := do
  let outer := (← get).allowIn
  modify ({ · with allowIn })
  let result ← reader
  modify ({ · with allowIn := outer })
  return result

structure Flavour where
  async : Bool := false
  generator : Bool := false
  deriving DecidableEq, Repr

def withinFunction {α : Type} (flavour : Flavour) (reader : Reader α) : Reader α := do
  let outer ← get
  modify ({ · with
    inFunction := true, inAsync := flavour.async, inGenerator := flavour.generator
    labels := [], inLoop := false, breakable := false })
  let result ← reader
  modify ({ · with
    inFunction := outer.inFunction, inAsync := outer.inAsync, inGenerator := outer.inGenerator
    labels := outer.labels, inLoop := outer.inLoop, breakable := outer.breakable
    hasTarget := outer.hasTarget, strict := outer.strict })
  return result

def withinBreakable {α : Type} (loop : Bool) (reader : Reader α) : Reader α := do
  let outer ← get
  modify ({ · with breakable := true, inLoop := outer.inLoop || loop })
  let result ← reader
  modify ({ · with breakable := outer.breakable, inLoop := outer.inLoop })
  return result

def atEnd : Reader Bool := do
  let s ← get
  return s.token == .sign ";" || s.token == .sign "\x7d" || s.token == .stop || s.afterBreak

/-- The end of a statement: a semicolon, or a place where one may be left out. -/
def semicolon : Reader Unit := do
  unless ← accept ";" do
    unless ← atEnd do throw (.expected ";" (← get).token.describe)

/-- Words that strict mode reserves are names elsewhere. -/
def checkName (text : String) : Reader Unit := do
  if strictWords.contains text then remark ⟨.strictName text, .strict⟩
  else if text == "yield" && (← get).strict then report (.strictName text)

def declaredName (letAllowed : Bool) : Reader Expr := do
  let s ← get
  match s.token with
  | .word text =>
    if text == "let" && !letAllowed then
      throw (.unexpected "let".toList "let is reserved in const, let, class declaration")
    if isReserved text then throw .nameExpected
    if text == "await" && (s.isModule || s.inAsync) then throw .awaitAsName
    require .nameExpected !(text == "yield" && s.inGenerator)
    advance
    if isFixedName text then remark ⟨.strictBinding, .strict⟩ else checkName text
    return .name text
  | .bad fault => throw fault
  | _ => throw .nameExpected

inductive Kind where
  | var
  | lexical
  | constant
  deriving DecidableEq, Repr

inductive Goal where
  /-- Statements, up to a closing brace if `braced`, else up to the end. No directive for strict mode
  stands at their head if `plain`. -/
  | body (braced plain : Bool)
  /-- A statement; imports stand at the top, and declarations where statements follow one another. -/
  | statement (top declares : Bool)
  | declarators (kind : Kind) (inLoop : Bool)
  /-- A name or a pattern that is declared. -/
  | binding (letAllowed : Bool)
  | bindingItems
  | bindingEntries
  | parameters
  | importNames
  | exportNames
  /-- The cases of a choice; `defaulted` tells that one for all other values has been. -/
  | cases (defaulted : Bool)
  | expression
  | assignment
  /-- Binary operators of at least the given precedence behind an operand. -/
  | operators (left : Expr) (least : Nat)
  /-- An operand; an arrow function can be the `first` one only. -/
  | unary (first : Bool)
  /-- Member accesses and, if `calls`, calls behind an expression. -/
  | tail (left : Expr) (calls : Bool)
  | constructed
  | primary (first : Bool)
  /-- Items up to a closing sign; `holes` may be left out between commas. -/
  | items (close : String) (holes : Bool)
  | entries
  /-- A template, from behind its backquote or from behind a hole. -/
  | template (tagged : Bool)

end TagCalls.Script
