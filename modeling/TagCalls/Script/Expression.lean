import TagCalls.Script.Function

/-!
Expressions.
-/
namespace TagCalls.Script

/-- Precedence of a binary operator; `**` alone groups to the right. -/
def precedence (allowIn : Bool) : Token → Option Nat
  | .sign "??" => some 1
  | .sign "||" => some 1
  | .sign "&&" => some 2
  | .sign "|" => some 3
  | .sign "^" => some 4
  | .sign "&" => some 5
  | .sign "==" => some 6
  | .sign "!=" => some 6
  | .sign "===" => some 6
  | .sign "!==" => some 6
  | .sign "<" => some 7
  | .sign ">" => some 7
  | .sign "<=" => some 7
  | .sign ">=" => some 7
  | .word "instanceof" => some 7
  | .word "in" => if allowIn then some 7 else none
  | .sign "<<" => some 8
  | .sign ">>" => some 8
  | .sign ">>>" => some 8
  | .sign "+" => some 9
  | .sign "-" => some 9
  | .sign "*" => some 10
  | .sign "/" => some 10
  | .sign "%" => some 10
  | .sign "**" => some 11
  | _ => none

def seesOperator : Reader Bool := do
  match (← get).token with
  | .sign text => return (precedence false (.sign text)).isSome
  | _ => return false

def combine (operator : Token) (left right : Expr) : Reader Expr := do
  match operator, left, right with
  | .sign "??", .logical, _ => throw .mixedCoalescing
  | .sign "??", _, .logical => throw .mixedCoalescing
  | .sign "??", _, _ => return .coalescing
  | .sign "||", .coalescing, _ => throw .mixedCoalescing
  | .sign "||", _, .coalescing => throw .mixedCoalescing
  | .sign "||", _, _ => return .logical
  | .sign "&&", .coalescing, _ => throw .mixedCoalescing
  | .sign "&&", _, .coalescing => throw .mixedCoalescing
  | .sign "&&", _, _ => return .logical
  | .sign "**", .unary, _ => throw .unaryBeforePower
  | _, _, _ => return .operation

def compoundAssignments : List String :=
  ["+=", "-=", "*=", "/=", "%=", "**=", "<<=", ">>=", ">>>=", "&=", "|=", "^=", "&&=", "||=", "??="]

section
variable (self : Goal → Reader Expr)

def items (close : String) (holes : Bool) : Reader (List Expr × Bool) := do
  match ← withIn true (self (.items close holes)) with
  | .list items trailing => return (items, trailing)
  | _ => return ([], false)

def readItems (close : String) (holes : Bool) : Reader Expr := do
  if ← accept close then return .list [] false
  if holes then
    if ← accept "," then
      let (rest, trailing) ← items self close holes
      return .list (.hole :: rest) trailing
  let item ← if ← accept "..." then Expr.spread <$> self .assignment else self .assignment
  if ← accept close then return .list [item] false
  if (← get).token == .stop then throw (.expected close (← get).token.describe)
  expect ","
  let (rest, trailing) ← items self close holes
  return .list (item :: rest) (trailing || rest.isEmpty)

def method (flavour : Flavour) : Reader Expr := do
  let _ ← propertyKey self
  let _ ← functionRest self flavour
  return .method

def accessor (goodParameters : List Expr → Bool) : Reader Expr := do
  let _ ← propertyKey self
  let parameters ← functionRest self {}
  require .accessorParameters (goodParameters parameters)
  return .method

/-- An entry of an object that begins with a word and goes on with neither sign nor comma. -/
def markedEntry (word : String) : Reader Expr := do
  match word with
  | "get" => accessor self List.isEmpty
  | "set" => accessor self fun | [parameter] => !parameter.isSpread | _ => false
  | "async" =>
    if (← get).afterBreak then throw (.unexpected (← get).token.describe "identifier")
    method self ⟨true, ← accept "*"⟩
  | _ => throw (.unexpected (← get).token.describe "... , *,  (, [, :, , ?, = or an identifier")

def entry : Reader Expr := do
  if ← accept "..." then return .spread (← self .assignment)
  if ← accept "*" then return ← method self ⟨false, true⟩
  let key ← propertyKey self
  if ← accept ":" then return ← self .assignment
  if ← sees "(" then
    let _ ← functionRest self {}
    return .method
  match key with
  | none => throw (.unexpected (← get).token.describe "identifier")
  | some name =>
    if ← accept "=" then
      let _ ← self .assignment
      return .covered name
    if (← sees ",") || (← sees "\x7d") then return .shorthand name
    markedEntry self name

def readEntries : Reader Expr := do
  if ← accept "\x7d" then return .list [] false
  let first ← entry self
  if ← accept "\x7d" then return .list [first] false
  expect ","
  match ← self .entries with
  | .list rest trailing => return .list (first :: rest) (trailing || rest.isEmpty)
  | _ => return .list [first] false

/-- A template may hold escapes that name no character only if a function takes it. -/
def readTemplateRest (tagged : Bool) : Reader Expr := do
  match readTemplate false (← get).rest with
  | .error fault => throw fault
  | .ok (strange, ending) =>
    if strange && !tagged then throw .badEscape
    match ending with
    | .closed rest =>
      jump rest
      return .other
    | .hole rest =>
      jump rest
      let _ ← withIn true (self .expression)
      unless ← sees "\x7d" do throw (.expected "\x7d" (← get).token.describe)
      self (.template tagged)

def regularExpression (ahead : Text) : Reader Expr := do
  match readRegularExpression false ahead >>= readFlags with
  | .error fault => throw fault
  | .ok rest =>
    jump rest
    return .other

/-- The body of an arrow function, which is an expression or statements; tells which. Its strings are
no directives. -/
def arrowBody (async : Bool) : Reader Bool := do
  if ← sees "\x7b" then
    advance
    let _ ← withIn true (withinFunction ⟨async, false⟩ (self (.body true false)))
    expect "\x7d"
    return true
  let _ ← withinFunction ⟨async, false⟩ (self .assignment)
  return false

/-- An arrow function from behind its parameters. Nothing is computed with one that ends in a brace. -/
def arrowRest (async : Bool) (parameters : List Expr) (trailing : Bool) : Reader Expr := do
  reportSome (Expr.itemsFault? (← get).strict true trailing parameters)
  if ← arrowBody self async then
    if ← seesOperator then
      report .declarationUnended
      return ← self (.operators .other 0)
  return .arrow

/-- An expression in parentheses, or the parameters of an arrow function. Behind `async` it is a call
or such parameters. -/
def parenthesised (first async : Bool) : Reader Expr := do
  advance
  let (inside, trailing) ← items self ")" false
  let s ← get
  if s.token == .sign "=>" then
    if s.afterBreak then throw .breakBeforeArrow
    if !first then throw .arrowMisplaced
    advance
    return ← arrowRest self async inside trailing
  require .defaultInLiteral (!inside.any Expr.hasDefault)
  if async then return .other
  if inside.any Expr.isSpread then throw .spreadInParentheses
  match inside with
  | [] => throw .emptyParentheses
  | [one] => return .paren one
  | _ => return .paren .other

def nameOrArrow (first : Bool) (text : String) : Reader Expr := do
  advance
  checkName text
  let s ← get
  unless first && s.token == .sign "=>" && !s.afterBreak do return .name text
  reportSome (Expr.nameFault? s.strict true text)
  advance
  let _ ← arrowBody self false
  return .arrow

def asyncOrName (first : Bool) : Reader Expr := do
  let next := lex false (← get).rest
  match next.afterBreak, next.token with
  | false, .word "function" =>
    advance
    advance
    functionFrom self true false
    return .other
  | false, .sign "(" =>
    if !first then return ← nameOrArrow self first "async"
    advance
    parenthesised self first true
  | false, .word text =>
    if !first || isReserved text then return ← nameOrArrow self first "async"
    advance
    let _ ← declaredName true
    expect "=>"
    let _ ← arrowBody self true
    return .arrow
  | _, _ => nameOrArrow self first "async"

def importExpression : Reader Expr := do
  advance
  if ← accept "." then
    modify ({ · with moduleSign := true })
    unless ← acceptWord "meta" do throw (.unexpected (← get).token.describe "meta")
    return .other
  expect "("
  let (_, trailing) ← items self ")" false
  if trailing then throw .commaInImport
  return .other

def readPrimary (first : Bool) : Reader Expr := do
  let s ← get
  match s.token with
  | .word "function" =>
    advance
    functionFrom self false false
    return .other
  | .word "async" => asyncOrName self first
  | .word text =>
    if ["this", "null", "true", "false"].contains text then
      advance
      return .other
    if isReserved text || (text == "yield" && (s.strict || s.inGenerator)) ||
        (text == "await" && (s.isModule || s.inAsync)) then
      throw .expressionExpected
    nameOrArrow self (first && text != "let") text
  | .number =>
    advance
    return .other
  | .string strict =>
    advance
    return .string strict
  | .template => self (.template false)
  | .sign "(" => parenthesised self first false
  | .sign "[" =>
    advance
    let (inside, trailing) ← items self "]" true
    return .array inside trailing
  | .sign "\x7b" =>
    advance
    match ← withIn true (self .entries) with
    | .list entries trailing => return .object entries trailing
    | _ => return .other
  | .sign "/" => regularExpression s.rest
  | .sign "/=" => regularExpression ('=' :: s.rest)
  | .bad fault => throw fault
  | _ => throw .expressionExpected

def propertyName : Reader Unit := do
  match (← get).token with
  | .word _ => advance
  | .bad fault => throw fault
  | _ => throw .nameExpected

def bracketed : Reader Unit := do
  let _ ← withIn true (self .expression)
  expect "]"

def readTail (left : Expr) (calls : Bool) : Reader Expr := do
  let optional := match left with | .optional => true | _ => false
  match (← get).token with
  | .sign "." =>
    advance
    propertyName
    self (.tail (if optional then .optional else .member) calls)
  | .sign "[" =>
    advance
    bracketed self
    self (.tail (if optional then .optional else .member) calls)
  | .sign "(" =>
    if !calls then return left
    advance
    let _ ← items self ")" false
    self (.tail (if optional then .optional else .other) calls)
  | .sign "?." =>
    if !calls then throw .expressionExpected
    advance
    if ← accept "(" then
      let _ ← items self ")" false
    else if ← accept "[" then bracketed self
    else propertyName
    self (.tail .optional calls)
  | .template =>
    require .optionalTemplate !optional
    let _ ← self (.template true)
    self (.tail .other calls)
  | _ => return left

/-- What stands behind `new`: something to call, whose first arguments belong to it, or the one
property that `new` has. -/
def readConstructed : Reader Expr := do
  if ← accept "." then
    unless ← acceptWord "target" do throw (.unexpected (← get).token.describe "target")
    require .targetMisplaced (← get).hasTarget
    return .other
  if ← seesWord "import" then throw .newImport
  let callee ← if ← acceptWord "new" then self .constructed else self (.primary false)
  let _ ← self (.tail callee false)
  if ← accept "(" then
    let _ ← items self ")" false
  return .other

def leftHand (first : Bool) : Reader Expr := do
  let head ←
    if ← acceptWord "new" then self .constructed
    else if ← seesWord "import" then importExpression self
    else self (.primary first)
  match head with
  | .arrow => return .arrow
  | _ => self (.tail head true)

def stepped (first : Bool) : Reader Expr := do
  let operand ← leftHand self first
  let s ← get
  match operand with
  | .arrow => return .arrow
  | _ =>
    if (s.token == .sign "++" || s.token == .sign "--") && !s.afterBreak then
      require .invalidTarget (operand.isPlace s.strict)
      advance
      return .operation
    return operand

/-- An operand behind `await`, or a name if none follows. -/
def awaited : Reader Expr := do
  advance
  if ← sees "*" then throw .awaitStar
  let s ← get
  if !s.inAsync && ((← atEnd) || [.sign ")", .sign "]", .sign ","].contains s.token) then
    require .awaitAsName !s.isModule
    return .name "await"
  require .awaitInFunction (s.inAsync || !s.inFunction)
  let _ ← self (.unary false)
  return .unary

def readUnary (first : Bool) : Reader Expr := do
  let token := (← get).token
  if token == .word "await" then return ← awaited self
  if [.sign "+", .sign "-", .sign "!", .sign "~", .word "typeof", .word "void", .word "delete"].contains token then
    advance
    let operand ← try self (.unary false) catch fault =>
      report fault
      pure Expr.other
    if token == .word "delete" && operand.isName then remark ⟨.strictDelete, .strict⟩
    return .unary
  if token == .sign "++" || token == .sign "--" then
    advance
    let operand ← self (.unary false)
    require .invalidTarget (operand.isPlace (← get).strict)
    return .operation
  stepped self first

def readOperators (left : Expr) (least : Nat) : Reader Expr := do
  let s ← get
  match left, precedence s.allowIn s.token with
  | .arrow, _ => return left
  | _, none => return left
  | _, some level =>
    if level ≤ least then return left
    advance
    let operand ← self (.unary false)
    let right ← self (.operators operand (if level = 11 then 10 else level))
    let result ← combine s.token left right
    self (.operators result least)

/-- An operand with the operators behind it. A missing operand before an operator is reported, and
reading goes on. -/
def binary : Reader Expr := do
  let left ← try self (.unary true) catch fault =>
    let s ← get
    if (precedence s.allowIn s.token).isSome then
      report .expressionExpected
      pure Expr.other
    else throw fault
  self (.operators left 0)

def conditional : Reader Expr := do
  let test ← binary self
  match test with
  | .arrow => return test
  | _ =>
    if ← accept "?" then
      let _ ← withIn true (self .assignment)
      expect ":"
      let _ ← self .assignment
      return .operation
    return test

def assigned (target : Expr) (fault : Option Fault) : Reader Unit := do
  reportSome fault
  unless target.isAssignable do throw .invalidAssignment
  advance
  let _ ← self .assignment

def yielded : Reader Expr := do
  let s ← get
  unless (← atEnd) || [.sign ")", .sign "]", .sign ",", .sign ":"].contains s.token do
    let _ ← accept "*"
    let _ ← self .assignment
  return .operation

def readAssignment : Reader Expr := do
  if (← get).inGenerator then
    if ← acceptWord "yield" then return ← yielded self
  let left ← conditional self
  let s ← get
  match left, s.token with
  | .arrow, _ => return left
  | _, .sign operator =>
    if left.isOperation then return left
    if operator == "=" then
      assigned self left (left.targetFault? s.strict)
      return .assign left
    if compoundAssignments.contains operator then
      assigned self left (if left.isPlace s.strict then none else some .invalidTarget)
      return .other
    return left
  | _, _ => return left

def readExpression : Reader Expr := do
  let first ← self .assignment
  if ← accept "," then
    let _ ← self .expression
    return .operation
  return first

end

end TagCalls.Script
