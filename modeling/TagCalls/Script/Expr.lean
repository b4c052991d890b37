import TagCalls.Script.Token

/-!
What is kept of an expression: as much as decides, behind it, whether it can be assigned to and
whether it can be the parameters of an arrow function. An expression is read before its use is known,
so a pattern is an expression that is looked at a second time.
-/
namespace TagCalls.Script

inductive Expr where
  | name (text : String)
  | member
  /-- A member access that may come to nothing. -/
  | optional
  | string (strict : Bool)
  /-- An array; `trailing` tells of a comma behind its last item. -/
  | array (items : List Expr) (trailing : Bool)
  | object (entries : List Expr) (trailing : Bool)
  | spread (inner : Expr)
  /-- A place in an array that holds nothing. -/
  | hole
  /-- An entry that is its own value. -/
  | shorthand (name : String)
  /-- Such an entry with a default. -/
  | covered (name : String)
  | method
  /-- An assignment by `=`. -/
  | assign (target : Expr)
  | paren (inner : Expr)
  | arrow
  | unary
  | logical
  | coalescing
  /-- A conditional, a binary operator or a step up or down. -/
  | operation
  /-- Items between brackets, before their use is known. -/
  | list (items : List Expr) (trailing : Bool)
  | other
  deriving Repr

namespace Expr

def isName : Expr → Bool
  | .name _ => true
  | _ => false

def isSpread : Expr → Bool
  | .spread _ => true
  | _ => false

/-- Whether no assignment begins behind the expression. -/
def isOperation : Expr → Bool
  | .unary | .logical | .coalescing | .operation => true
  | _ => false

def isAssignable : Expr → Bool
  | .name _ | .member | .optional | .paren _ | .array _ _ | .object _ _ => true
  | _ => false

def isPlace (strict : Bool) : Expr → Bool
  | .name text => !(strict && isFixedName text)
  | .member => true
  | .paren inner => inner.isPlace strict
  | _ => false

/-- Whether an object holds an entry with a default, which only patterns do. -/
def hasDefault : Expr → Bool
  | .object entries _ => entries.any fun | .covered _ => true | _ => false
  | _ => false

def nameFault? (strict binding : Bool) (text : String) : Option Fault :=
  if strict && isFixedName text then some (if binding then .strictBinding else .invalidTarget) else none

mutual
/-- The fault of an expression as a part of a pattern, which declares names if `binding` and is
assigned to otherwise. A pattern with a default has been looked at before. -/
def patternFault? (strict binding : Bool) : Expr → Option Fault
  | .name text => nameFault? strict binding text
  | .assign (.array _ _) => none
  | .assign (.object _ _) => none
  | .assign target => patternFault? strict binding target
  | .array items trailing => itemsFault? strict binding trailing items
  | .object entries trailing => entriesFault? strict binding trailing entries
  | .member => if binding then some .invalidPattern else none
  | .paren inner =>
    if binding then some .invalidPattern
    else if inner.isPlace strict then none
    else some .invalidTarget
  | _ => some .invalidPattern

/-- The fault of the items of an array as a pattern. A rest stands last, without a default and
without a comma behind it. -/
def itemsFault? (strict binding trailing : Bool) : List Expr → Option Fault
  | [] => none
  | .spread (.assign _) :: [] => some .restWithInitializer
  | .spread inner :: [] => if trailing then some .commaAfterRest else patternFault? strict binding inner
  | .spread _ :: _ :: _ => some .restNotLast
  | .hole :: items => itemsFault? strict binding trailing items
  | item :: items =>
    (patternFault? strict binding item).or (itemsFault? strict binding trailing items)

/-- The fault of the entries of an object as a pattern. A rest that declares is a name. -/
def entriesFault? (strict binding trailing : Bool) : List Expr → Option Fault
  | [] => none
  | .spread inner :: [] =>
    if trailing then some .commaAfterRest
    else
      match binding, inner with
      | true, .name text => nameFault? strict true text
      | true, _ => some .restWithoutName
      | false, .assign _ => some .restWithInitializer
      | false, inner => patternFault? strict false inner
  | .spread _ :: _ :: _ => some .restNotLast
  | .shorthand text :: entries =>
    (if binding then nameFault? strict true text else none).or
      (entriesFault? strict binding trailing entries)
  | .covered text :: entries =>
    (if binding then nameFault? strict true text else none).or
      (entriesFault? strict binding trailing entries)
  | value :: entries =>
    (patternFault? strict binding value).or (entriesFault? strict binding trailing entries)
end

def targetFault? (strict : Bool) : Expr → Option Fault
  | .array items trailing => itemsFault? strict false trailing items
  | .object entries trailing => entriesFault? strict false trailing entries
  | e => if e.isPlace strict then none else some .invalidTarget

end Expr

end TagCalls.Script
