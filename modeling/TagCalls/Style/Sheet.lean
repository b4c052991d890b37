import TagCalls.Style.Hash

/-!
Style sheets. Registering a style gives it a name made from its content and adds the rule for that
name, unless the sheet has a rule of that name already.
-/
namespace TagCalls.Style

/-- The parts of a template with values between them. Values behind the last part are left out. -/
def interpolate : List Text → List Text → Text
  | [], _ => []
  | part :: parts, [] => part ++ interpolate parts []
  | part :: parts, value :: values => part ++ value ++ interpolate parts values

structure Rule where
  name : Text
  text : Text
  deriving DecidableEq, Repr

def classRule (content : Text) : Rule :=
  let name := className content
  let body := content.flatMap fun c => if c = '&' then '.' :: name else [c]
  ⟨name, '.' :: (name ++ "\x7b".toList ++ body ++ "\x7d\n".toList)⟩

def keyframesRule (content : Text) : Rule :=
  let name := 'k' :: className content
  ⟨name, "@keyframes ".toList ++ name ++ "\x7b".toList ++ content ++ "\x7d\n".toList⟩

structure Sheet where
  text : Text := []
  names : List Text := []
  deriving DecidableEq, Repr

namespace Sheet

def size (sheet : Sheet) : Nat := sheet.names.length

def insert (sheet : Sheet) (rule : Rule) : Sheet :=
  if rule.name ∈ sheet.names then sheet else ⟨sheet.text ++ rule.text, sheet.names ++ [rule.name]⟩

end Sheet

inductive Kind where
  | css
  | keyframes
  deriving DecidableEq, Repr

def Kind.rule : Kind → Text → Rule
  | .css => classRule
  | .keyframes => keyframesRule

def Sheet.register (sheet : Sheet) (kind : Kind) (parts values : List Text) : Text × Sheet :=
  let rule := kind.rule (interpolate parts values)
  (rule.name, sheet.insert rule)

end TagCalls.Style
