import TagCalls.Script.Reader

/-!
Names and patterns that are declared, parameters, and functions.
-/
namespace TagCalls.Script

section
variable (self : Goal → Reader Expr)

def propertyKey : Reader (Option String) := do
  match (← get).token with
  | .word text =>
    advance
    return some text
  | .number | .string _ =>
    advance
    return none
  | .sign "[" =>
    advance
    let _ ← withIn true (self .assignment)
    expect "]"
    return none
  | .bad fault => throw fault
  | token =>
    throw (.unexpected token.describe "identifier, string literal, numeric literal or [ for the computed key")

def element : Reader Expr := do
  let pattern ← self (.binding true)
  if ← accept "=" then
    let _ ← withIn true (self .assignment)
    return .other
  return pattern

def readBinding (letAllowed : Bool) : Reader Expr := do
  match (← get).token with
  | .word _ => declaredName letAllowed
  | .sign "[" =>
    advance
    self .bindingItems
  | .sign "\x7b" =>
    advance
    match ← self .bindingEntries with
    | .list entries trailing => reportSome (Expr.entriesFault? false true trailing entries)
    | _ => pure ()
    return .other
  | .bad fault => throw fault
  | token => throw (.unexpected token.describe "yield, an identifier, [ or \x7b")

def endOfRest (close : String) : Reader Unit := do
  unless ← sees close do
    expect ","
    report (if ← sees close then .commaAfterRest else .restNotLast)

def readBindingItems : Reader Expr := do
  if ← accept "]" then return .other
  unless ← accept "," do
    if ← accept "..." then
      let _ ← self (.binding true)
      endOfRest "]"
    else
      let _ ← element self
      unless ← sees "]" do expect ","
  self .bindingItems

def bindingEntry : Reader Expr := do
  if ← accept "..." then return .spread (← self (.binding true))
  match ← propertyKey self, ← accept ":" with
  | _, true =>
    let _ ← element self
    return .shorthand ""
  | some name, false =>
    if ← accept "=" then
      let _ ← withIn true (self .assignment)
    return .shorthand name
  | none, false => throw (.unexpected (← get).token.describe "an identifier")

def readBindingEntries : Reader Expr := do
  if ← accept "\x7d" then return .list [] false
  let first ← bindingEntry self
  if ← accept "\x7d" then return .list [first] false
  expect ","
  match ← self .bindingEntries with
  | .list rest trailing => return .list (first :: rest) (trailing || rest.isEmpty)
  | _ => return .list [first] false

def readParameters : Reader Expr := do
  if ← accept ")" then return .list [] false
  let first ←
    if ← accept "..." then
      let rest ← self (.binding true)
      if ← accept "=" then
        let _ ← self .assignment
        report .restWithInitializer
      endOfRest ")"
      pure (Expr.spread rest)
    else
      let parameter ← element self
      unless ← sees ")" do expect ","
      pure parameter
  match ← self .parameters with
  | .list rest _ => return .list (first :: rest) false
  | _ => return .list [first] false

/-- The braces of a function and what is between them. A directive for strict mode at their head counts;
it is refused if the parameters are not `simple`, plain names. -/
def functionBody (flavour : Flavour) (simple : Bool) : Reader Unit := do
  expect "\x7b"
  let _ ← withIn true <| withinFunction flavour do
    modify ({ · with hasTarget := true })
    if (← get).token == .string true then modify ({ · with strict := true })
    self (.body true !simple)
  expect "\x7d"

def functionRest (flavour : Flavour) : Reader (List Expr) := do
  expect "("
  match ← withIn true (withinFunction ⟨false, false⟩ (self .parameters)) with
  | .list parameters _ =>
    functionBody self flavour (parameters.all Expr.isName)
    return parameters
  | _ => return []

def functionFrom (async named : Bool) : Reader Unit := do
  let flavour : Flavour := ⟨async, ← accept "*"⟩
  match named, (← get).token with
  | true, _ => let _ ← declaredName true
  | false, .word _ => let _ ← declaredName true
  | false, _ => pure ()
  let _ ← functionRest self flavour

end

end TagCalls.Script
