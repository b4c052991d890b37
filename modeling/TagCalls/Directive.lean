import TagCalls.Span
import TagCalls.Text.Blank
import TagCalls.Text.Pattern

/-!
The directive `/** @jsx name */`, which names the function that a script's tags call. The first one
in a script counts; a script without one takes a default.
-/
namespace TagCalls

structure Directive where
  name : Text
  span : Span
  deriving DecidableEq, Repr

namespace Directive

def read? (t : Text) : Option (Text × Text) := do
  let opened ← Text.dropLiteral? "/**".toList t
  let keyword ← Text.dropLiteral? "@jsx".toList (Text.dropBlanks opened)
  let (name, behind) ← Text.takeName? (← Text.dropSomeBlanks? keyword)
  let rest ← Text.dropLiteral? "*/".toList (Text.dropBlanks behind)
  return (name, rest)

theorem read?_shorter {t name rest : Text} (h : read? t = some (name, rest)) : rest.length < t.length := by
  simp only [read?, Option.bind_eq_bind, Option.bind_eq_some_iff, Prod.exists, Option.pure_def,
    Option.some.injEq, Prod.mk.injEq] at h
  obtain ⟨opened, h1, keyword, h2, blanks, d2, _, behind, h3, _, h4, rfl, rfl⟩ := h
  have e1 := congrArg List.length (Text.dropLiteral?_eq_some h1)
  have e2 := congrArg List.length (Text.dropLiteral?_eq_some h2)
  have e3 := congrArg List.length (Text.takeName?_eq_some h3).1
  have e4 := congrArg List.length (Text.dropLiteral?_eq_some h4)
  have d1 := Text.length_dropBlanks_le opened
  have d2 := Text.length_dropSomeBlanks?_le d2
  have d3 := Text.length_dropBlanks_le behind
  simp at e1 e2 e3 e4
  omega

def pattern : Pattern Text := ⟨read?, read?_shorter⟩

def find? (source : Text) : Option Directive :=
  (pattern.first? source).map fun (gap, name, rest) =>
    ⟨name, .of gap.bytes (source.bytes - rest.bytes)⟩

def defaultName : Text := "createElement".toList

def resolve (fallback source : Text) : Text :=
  match find? source with
  | some directive => directive.name
  | none => fallback

end Directive
end TagCalls
