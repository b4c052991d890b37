import TagCalls.Script.Statement

/-!
The grammar of scripts, without classes: statements, declarations, functions, imports and exports, and
expressions. Reading decides only whether a text is a script.
-/
namespace TagCalls.Script

def rule (self : Goal → Reader Expr) : Goal → Reader Expr
  | .body braced plain => readBody self braced plain
  | .statement top declares => readStatement self top declares
  | .declarators kind inLoop => readDeclarators self kind inLoop
  | .binding letAllowed => readBinding self letAllowed
  | .bindingItems => readBindingItems self
  | .bindingEntries => readBindingEntries self
  | .parameters => readParameters self
  | .importNames => readImportNames self
  | .exportNames => readExportNames self
  | .cases defaulted => readCases self defaulted
  | .expression => readExpression self
  | .assignment => readAssignment self
  | .operators left least => readOperators self left least
  | .unary first => readUnary self first
  | .tail left calls => readTail self left calls
  | .constructed => readConstructed self
  | .primary first => readPrimary self first
  | .items close holes => readItems self close holes
  | .entries => readEntries self
  | .template tagged => readTemplateRest self tagged

def unrolled : Nat → Goal → Reader Expr
  | 0, _ => throw .expressionExpected
  | depth + 1, goal => rule (unrolled depth) goal

/-- Between two tokens fewer than sixteen parts of the grammar open inside one another. -/
def depthFor (code : Text) : Nat := 16 * (code.length + 2)

/-- A whole script. A directive for strict mode counts if it is the first token. -/
def script (code : Text) : Reader Unit := do
  let next := lex true (dropOpening code)
  modify ({ · with token := next.token, afterBreak := next.afterBreak, rest := next.rest })
  next.remarks.forM remark
  if next.token == .string true then modify ({ · with strict := true })
  let _ ← unrolled (depthFor code) (.body false false)
  if (← get).moduleSign then enterModule

/-- The first fault of a script. One that stopped the reading comes before one that did not. -/
def fault? (code : Text) : Option Fault :=
  match script code { token := .stop, afterBreak := true, rest := [] } with
  | .error fault _ => some fault
  | .ok _ s => s.fault

end TagCalls.Script
