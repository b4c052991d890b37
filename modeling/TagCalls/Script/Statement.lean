import TagCalls.Script.Expression

/-!
Statements, declarations of variables, imports and exports.
-/
namespace TagCalls.Script

section
variable (self : Goal → Reader Expr)

def readDeclarators (kind : Kind) (inLoop : Bool) : Reader Expr := do
  if (← sees ";") || (← get).token == .stop then
    report .trailingComma
    return .list [] false
  let pattern ← self (.binding (kind == .var))
  let valued ← accept "="
  if valued then
    let _ ← self .assignment
  else
    unless inLoop && ((← seesWord "of") || (← seesWord "in")) do
      if kind == .constant && !inLoop then report .missingInitializer
      else unless pattern.isName do throw .patternWithoutInitializer
  let first := if valued then Expr.assign pattern else pattern
  if ← accept "," then
    match ← self (.declarators kind inLoop) with
    | .list rest _ => return .list (first :: rest) false
    | _ => return .list [first] false
  return .list [first] false

/-- Whether a declaration begins with `let` here, which is an ordinary name elsewhere. -/
def letDeclares : Reader Bool := do
  match ← following with
  | .word text => return !isReserved text
  | .sign "[" | .sign "\x7b" => return true
  | _ => return false

def declaration : Reader (Option Kind) := do
  if ← seesWord "const" then return some .constant
  if ← seesWord "var" then return some .var
  if ← seesWord "let" then
    if ← letDeclares then return some .lexical
  return none

def condition : Reader Unit := do
  expect "("
  let _ ← withIn true (self .expression)
  expect ")"

/-- The parts of a loop's head behind its first semicolon. The second one may be left out. -/
def loopHead : Reader Unit := do
  unless ← accept ";" do
    let _ ← self .expression
    let _ ← accept ";"
  unless ← sees ")" do
    let _ ← self .expression

def seesLoopWord : Reader Bool := return (← seesWord "of") || (← seesWord "in")

def loopRange : Reader Unit := do
  if ← acceptWord "of" then
    let _ ← self .assignment
  else
    advance
    let _ ← self .expression

/-- A loop over values or keys declares one variable, and only a `var` with keys has a value. -/
def loopVariableFault? (strict ofValues : Bool) : List Expr → Option Fault
  | [.assign _] => if strict || ofValues then some .loopInitializer else none
  | [_] => none
  | _ => some .loopVariables

def declaringLoop (kind : Kind) : Reader Unit := do
  advance
  let declared ← withIn (kind != .var) (self (.declarators kind true))
  if ← seesLoopWord then
    match declared with
    | .list declared _ =>
      reportSome (loopVariableFault? (← get).strict (← seesWord "of") declared)
    | _ => pure ()
    loopRange self
  else
    expect ";"
    loopHead self

def plainLoop : Reader Unit := do
  let first ← withIn false (self .expression)
  if ← seesLoopWord then
    reportSome (first.targetFault? (← get).strict)
    loopRange self
  else
    expect ";"
    loopHead self

def loopBody : Reader Unit := do
  let _ ← withinBreakable true (self (.statement false false))

def forLoop : Reader Unit := do
  expect "("
  match ← declaration with
  | some kind => withIn true (declaringLoop self kind)
  | none => if ← accept ";" then withIn true (loopHead self) else withIn true (plainLoop self)
  expect ")"
  loopBody self

def readImportNames : Reader Expr := do
  if ← accept "\x7d" then return .other
  match (← get).token with
  | .word _ =>
    advance
    if ← acceptWord "as" then
      let _ ← declaredName true
  | .string _ =>
    advance
    unless ← acceptWord "as" do throw .importedString
    let _ ← declaredName true
  | .bad fault => throw fault
  | token => throw (.unexpected token.describe "identifier or string")
  if ← accept "\x7d" then return .other
  expect ","
  self .importNames

def importSource : Reader Unit := do
  match (← get).token with
  | .string _ =>
    advance
    semicolon
  | .bad fault => throw fault
  | token => throw (.unexpected token.describe "a string literal")

def importedNames : Reader Unit := do
  if ← accept "*" then
    expectWord "as"
    let _ ← declaredName true
  else
    expect "\x7b"
    let _ ← self .importNames

def importDeclaration : Reader Unit := do
  enterModule
  advance
  match (← get).token with
  | .string _ => importSource
  | .word _ =>
    let _ ← declaredName true
    if ← accept "," then importedNames self
    expectWord "from"
    importSource
  | _ =>
    importedNames self
    expectWord "from"
    importSource

def seesAsyncFunction : Reader Bool := do
  let s ← get
  let next := lex false s.rest
  return s.token == .word "async" && next.token == .word "function" && !next.afterBreak

def exportDefault : Reader Unit := do
  if ← seesAsyncFunction then
    advance
    advance
    functionFrom self true false
  else if ← acceptWord "function" then functionFrom self false false
  else
    let _ ← withIn true (self .assignment)
    semicolon

def exportName : Reader Expr := do
  match (← get).token with
  | .word text =>
    advance
    return .name text
  | .string strict =>
    advance
    return .string strict
  | .bad fault => throw fault
  | token => throw (.unexpected token.describe "identifier or string")

def readExportNames : Reader Expr := do
  if ← accept "\x7d" then return .list [] false
  let name ← exportName
  if ← acceptWord "as" then
    let _ ← exportName
  unless ← sees "\x7d" do expect ","
  match ← self .exportNames with
  | .list names _ => return .list (name :: names) false
  | _ => return .list [name] false

def exportedFault? : Expr → Option Fault
  | .name text => if isReserved text then some (.exportedWord text) else none
  | _ => some .importedString

def variableStatement (kind : Kind) : Reader Unit := do
  advance
  let _ ← withIn true (self (.declarators kind false))
  unless ← accept ";" do
    unless ← atEnd do throw .declarationUnended

def exportDeclaration : Reader Unit := do
  enterModule
  advance
  if ← acceptWord "default" then exportDefault self
  else if ← accept "*" then
    if ← acceptWord "as" then
      let _ ← exportName
    expectWord "from"
    importSource
  else if ← accept "\x7b" then
    let names ← self .exportNames
    if ← acceptWord "from" then importSource
    else
      match names with
      | .list names _ => reportSome (names.findSome? exportedFault?)
      | _ => pure ()
      semicolon
  else if ← seesAsyncFunction then
    advance
    advance
    functionFrom self true true
  else if ← acceptWord "function" then functionFrom self false true
  else
    match ← declaration with
    | some kind => variableStatement self kind
    | none => throw (.unexpected (← get).token.describe "\x7b")

/-- The statement behind a label. It may be a function, outside strict mode. -/
def labelled (label : String) : Reader Unit := do
  let outer := (← get).labels
  modify ({ · with labels := label :: outer })
  let function ← seesWord "function"
  require .generatorLabel !(function && (← following) == .sign "*")
  let _ ← withinBreakable false (self (.statement false function))
  require .strictLabel !(function && (← get).strict)
  modify ({ · with labels := outer })
  require (.repeatedLabel label) (!outer.contains label)

def expressionEnd (e : Expr) : Reader Unit := do
  unless ← accept ";" do
    unless ← atEnd do
      unless ← seesOperator do throw .semicolonExpected
      report .declarationUnended
      let _ ← withIn true (self (.operators e 0))

def expressionStatement : Reader Expr := do
  let e ← withIn true (self .expression)
  match e with
  | .name text => if ← accept ":" then labelled self text else expressionEnd self e
  | _ => expressionEnd self e
  return e

/-- A statement that begins with `await` ends behind its operand, with or without a semicolon. -/
def awaitStatement (top : Bool) : Reader Unit := do
  if top then modify ({ · with moduleSign := true })
  let operand ← awaited self
  let _ ← withIn true (self (.operators operand 0))
  let _ ← accept ";"

def jumpStatement (leaves : Bool) : Reader Unit := do
  advance
  let s ← get
  let labelled ←
    if ← atEnd then
      let _ ← accept ";"
      pure true
    else
      match ← declaredName true with
      | .name label =>
        semicolon
        pure (s.labels.contains label)
      | _ => pure false
  if leaves then
    require .labelUnknown labelled
    require .breakMisplaced s.breakable
  else
    require .continueMisplaced s.inLoop
    require .labelUnknown labelled

def throwStatement : Reader Unit := do
  advance
  if (← get).afterBreak then throw .breakAfterThrow
  let _ ← withIn true (self .expression)
  semicolon

def doLoop : Reader Unit := do
  advance
  loopBody self
  expectWord "while"
  condition self
  let _ ← accept ";"

def block : Reader Unit := do
  expect "\x7b"
  let _ ← self (.body true false)
  expect "\x7d"

def tryStatement : Reader Unit := do
  advance
  block self
  let caught ← acceptWord "catch"
  if caught then
    if ← accept "(" then
      let _ ← self (.binding true)
      expect ")"
    block self
  let finished ← acceptWord "finally"
  if finished then block self
  require .declarationUnended (caught || finished)

def readCases (defaulted : Bool) : Reader Expr := do
  if ← acceptWord "case" then
    let _ ← withIn true (self .expression)
    expect ":"
    self (.cases defaulted)
  else if ← acceptWord "default" then
    if defaulted then throw .defaultRepeated
    expect ":"
    self (.cases true)
  else if ← sees "\x7d" then return .other
  else
    let _ ← self (.statement false true)
    self (.cases defaulted)

def switchStatement : Reader Unit := do
  advance
  condition self
  expect "\x7b"
  if (← seesWord "case") || (← seesWord "default") then
    let _ ← withinBreakable false (self (.cases false))
  expect "\x7d"

/-- A statement. Its result is the expression that it consists of, if it consists of one. -/
def readStatement (top declares : Bool) : Reader Expr := do
  match (← get).token with
  | .sign ";" =>
    advance
    return .other
  | .sign "\x7b" =>
    block self
    return .other
  | .word "function" =>
    require .misplacedDeclaration declares
    advance
    functionFrom self false true
    return .other
  | .word "return" =>
    require .returnOutsideFunction (← get).inFunction
    advance
    unless ← atEnd do
      let _ ← withIn true (self .expression)
    semicolon
    return .other
  | .word "if" =>
    advance
    condition self
    let _ ← self (.statement false false)
    if ← acceptWord "else" then let _ ← self (.statement false false)
    return .other
  | .word "while" =>
    advance
    condition self
    loopBody self
    return .other
  | .word "do" =>
    doLoop self
    return .other
  | .word "for" =>
    advance
    forLoop self
    return .other
  | .word "break" =>
    jumpStatement true
    return .other
  | .word "continue" =>
    jumpStatement false
    return .other
  | .word "throw" =>
    throwStatement self
    return .other
  | .word "debugger" =>
    advance
    semicolon
    return .other
  | .word "with" =>
    remark ⟨.strictWith, .strict⟩
    advance
    condition self
    let _ ← self (.statement false false)
    return .other
  | .word "switch" =>
    switchStatement self
    return .other
  | .word "try" =>
    tryStatement self
    return .other
  | .word "import" =>
    if [.sign "(", .sign "."].contains (← following) then
      let _ ← withIn true (self .expression)
      if ← atEnd then
        let _ ← accept ";"
      return .other
    unless top do throw .misplacedImport
    importDeclaration self
    return .other
  | .word "export" =>
    unless top do throw .misplacedImport
    exportDeclaration self
    return .other
  | token =>
    if token == .word "await" && declares then
      awaitStatement self top
      return .other
    if ← seesAsyncFunction then
      require .misplacedDeclaration declares
      advance
      advance
      functionFrom self true true
      return .other
    match ← if declares || token == .word "var" then declaration else pure none with
    | some kind =>
      variableStatement self kind
      return .other
    | none => expressionStatement self

/-- Statements one behind the other. Strings at their head are directives. -/
def readBody (braced plain : Bool) : Reader Expr := do
  let s ← get
  if s.token == .stop || (braced && s.token == .sign "\x7d") then return .other
  let statement ← self (.statement (!braced) true)
  match statement with
  | .string strict =>
    require .lateDirective !(plain && strict)
    self (.body braced plain)
  | _ => self (.body braced false)

end

end TagCalls.Script
