import TagCalls.Text.Quoted

/-!
Tokens of a script, and what can be wrong with one.
-/
namespace TagCalls.Script

inductive Fault where
  | expressionExpected
  | semicolonExpected
  | declarationUnended
  | nameExpected
  | expected (sign : String) (got : Text)
  | unexpected (got : Text) (wanted : String)
  | unexpectedCharacter (c : Char)
  | unterminatedString
  | unterminatedTemplate
  | unterminatedComment
  | unterminatedRegularExpression
  | unknownFlags
  | badEscape
  | digitExpected (kind : String)
  | exponentExpected
  | digitSeparator
  | nameAfterNumber
  | legacyOctal
  | legacyDecimal
  | legacyComment
  | strictName (name : String)
  | strictBinding
  | strictDelete
  | strictLabel
  | generatorLabel
  | strictWith
  | lateDirective
  | awaitAsName
  | awaitInFunction
  | awaitStar
  | invalidTarget
  | invalidAssignment
  | invalidPattern
  | defaultInLiteral
  | emptyParentheses
  | spreadInParentheses
  | arrowMisplaced
  | breakBeforeArrow
  | restNotLast
  | restWithInitializer
  | restWithoutName
  | commaAfterRest
  | trailingComma
  | missingInitializer
  | patternWithoutInitializer
  | loopInitializer
  | loopVariables
  | defaultRepeated
  | breakMisplaced
  | continueMisplaced
  | labelUnknown
  | breakAfterThrow
  | targetMisplaced
  | accessorParameters
  | returnOutsideFunction
  | misplacedDeclaration
  | misplacedImport
  | exportedWord (name : String)
  | commaInImport
  | newImport
  | importedString
  | repeatedLabel (name : String)
  | unaryBeforePower
  | mixedCoalescing
  | optionalTemplate
  deriving DecidableEq, Repr

inductive Token where
  | word (text : String)
  | sign (text : String)
  | number
  /-- A string; `strict` tells whether it reads `use strict`, letter by letter. -/
  | string (strict : Bool)
  /-- The backquote that begins a template. -/
  | template
  | stop
  | bad (fault : Fault)
  deriving DecidableEq, Repr

def reservedWords : List String :=
  ["break", "case", "catch", "class", "const", "continue", "debugger", "default", "delete", "do", "else",
   "enum", "export", "extends", "false", "finally", "for", "function", "if", "import", "in", "instanceof",
   "new", "null", "return", "super", "switch", "this", "throw", "true", "try", "typeof", "var", "void",
   "while", "with"]

def isReserved (word : String) : Bool := reservedWords.contains word

def strictWords : List String :=
  ["implements", "interface", "let", "package", "private", "protected", "public", "static"]

def isFixedName (word : String) : Bool := word == "eval" || word == "arguments"

def Token.describe : Token → Text
  | .word text => if isReserved text then text.toList else "ident".toList
  | .sign text => text.toList
  | .number => "numeric literal".toList
  | .string _ => "string literal".toList
  | .template => "`".toList
  | .stop => "<eof>".toList
  | .bad _ => "<lexing error>".toList

def Fault.message : Fault → Text
  | .expressionExpected => "Expression expected".toList
  | .semicolonExpected => "Expected ';', '\x7d' or <eof>".toList
  | .declarationUnended => "Expected a semicolon".toList
  | .nameExpected => "Expected ident".toList
  | .expected sign got => "Expected '".toList ++ sign.toList ++ "', got '".toList ++ got ++ "'".toList
  | .unexpected got wanted =>
    "Unexpected token `".toList ++ got ++ "`. Expected ".toList ++ wanted.toList
  | .unexpectedCharacter c => "Unexpected character '".toList ++ Text.quoteChar c ++ "'".toList
  | .unterminatedString => "Unterminated string constant".toList
  | .unterminatedTemplate => "Unterminated template".toList
  | .unterminatedComment => "Unterminated block comment".toList
  | .unterminatedRegularExpression => "Unterminated regexp literal".toList
  | .unknownFlags => "Unknown regular expression flags.".toList
  | .badEscape => "Bad character escape sequence, expected 4 hex characters".toList
  | .digitExpected kind => "Expected ".toList ++ kind.toList ++ " digit".toList
  | .exponentExpected => "Expected +, - or decimal digit after e".toList
  | .digitSeparator => "A numeric separator is only allowed between two digits".toList
  | .nameAfterNumber => "Identifier cannot follow number".toList
  | .legacyOctal => "Legacy octal escape is not permitted in strict mode".toList
  | .legacyDecimal => "Legacy decimal escape is not permitted in strict mode".toList
  | .legacyComment => "Legacy comments cannot be used in module code".toList
  | .strictName name =>
    "`".toList ++ name.toList ++ "` cannot be used as an identifier in strict mode".toList
  | .strictBinding =>
    "'eval' and 'arguments' cannot be used as a binding identifier in strict mode".toList
  | .strictDelete => "`delete` cannot be called on an identifier in strict mode".toList
  | .strictLabel => "Function cannot be labelled in strict mode".toList
  | .generatorLabel => "Generator or async function cannot be labelled".toList
  | .strictWith => "With statement are not allowed in strict mode".toList
  | .lateDirective =>
    "Illegal 'use strict' directive in function with non-simple parameter list.".toList
  | .awaitAsName => "`await` cannot be used as an identifier in an async context".toList
  | .awaitInFunction => "await isn't allowed in non-async function".toList
  | .awaitStar =>
    "await* has been removed from the async functions proposal. Use Promise.all() instead.".toList
  | .invalidTarget => "Cannot assign to this".toList
  | .invalidAssignment => "Invalid assignment target".toList
  | .invalidPattern => "Not a pattern".toList
  | .defaultInLiteral => "assignment property is invalid syntax".toList
  | .emptyParentheses => "Parenthesized expression cannot be empty".toList
  | .spreadInParentheses => "Parenthesized expression cannot contain spread operator".toList
  | .arrowMisplaced => "An arrow function is not allowed here".toList
  | .breakBeforeArrow => "Unexpected line break between arrow head and arrow".toList
  | .restNotLast => "Rest element must be final element".toList
  | .restWithInitializer => "A rest parameter cannot have an initializer".toList
  | .restWithoutName => "`...` must be followed by an identifier in declaration contexts".toList
  | .commaAfterRest => "Trailing comma isn't permitted after a rest element".toList
  | .trailingComma => "Trailing comma is not allowed".toList
  | .missingInitializer => "'const' declarations must be initialized".toList
  | .patternWithoutInitializer => "Destructuring bindings require initializers".toList
  | .loopInitializer => "Unexpected initializer in for in/of loop".toList
  | .loopVariables => "Expected one variable binding".toList
  | .defaultRepeated => "A switch block cannot have multiple defaults".toList
  | .breakMisplaced =>
    "A 'break' statement can only be used within an enclosing iteration or switch statement.".toList
  | .continueMisplaced =>
    "A 'continue' statement can only be used within an enclosing iteration statement.".toList
  | .labelUnknown => "Jump target cannot cross function boundary".toList
  | .breakAfterThrow => "LineBreak cannot follow 'throw'".toList
  | .targetMisplaced => "'new.target' can only be used within functions".toList
  | .accessorParameters => "Setter should have exactly one parameter".toList
  | .returnOutsideFunction => "Return statement is not allowed here".toList
  | .misplacedDeclaration => "Declaration not allowed".toList
  | .misplacedImport => "'import', and 'export' cannot be used outside of module code".toList
  | .exportedWord name =>
    "'".toList ++ name.toList ++ "' cannot be used without 'from' clause".toList
  | .commaInImport => "Trailing comma is disallowed inside import(...) arguments".toList
  | .newImport => "Cannot use new with import(...)".toList
  | .importedString => "A string literal cannot be used as an imported binding.".toList
  | .repeatedLabel name => "Label ".toList ++ name.toList ++ " is already declared".toList
  | .unaryBeforePower => "** cannot be applied to unary operator".toList
  | .mixedCoalescing =>
    "Nullish coalescing operator(??) requires parens when mixing with logical operators".toList
  | .optionalTemplate => "Tagged template expressions are not permitted in an optional chain".toList

inductive Scope where
  | every
  /-- Scripts in strict mode, which modules are. -/
  | strict
  | modules
  deriving DecidableEq, Repr

/-- A fault that a token brings without stopping the reading. -/
structure Remark where
  fault : Fault
  scope : Scope
  deriving DecidableEq, Repr

end TagCalls.Script
