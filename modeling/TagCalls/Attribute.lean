import TagCalls.Text.Blank
import TagCalls.Text.Pattern

/-!
Attributes of a tag. Of the text behind a tag's name, `key="text"`, `key='text'` and
`key={expression}` are attributes, with blanks allowed around the sign; all else is passed over.
A braced value ends at its first closing brace, and a quoted one at the next quote of either kind.
-/
namespace TagCalls

namespace Attribute

inductive Value where
  /-- A quoted text, with its quotes. -/
  | literal (text : Text)
  /-- The inside of braces. -/
  | expression (text : Text)
  deriving DecidableEq, Repr

def Value.source : Value → Text
  | .literal text => text
  | .expression text => text

end Attribute

structure Attribute where
  key : Text
  value : Attribute.Value
  deriving DecidableEq, Repr

namespace Attribute

def isQuote (c : Char) : Bool := c == '"' || c == '\''

def Value.read? : Text → Option (Value × Text)
  | [] => none
  | c :: t =>
    if isQuote c then
      match t.dropWhile (!isQuote ·) with
      | [] => none
      | close :: rest => some (.literal (c :: (t.takeWhile (!isQuote ·) ++ [close])), rest)
    else if c = '{' then
      (Text.splitFirst? '}' t).map fun (inside, rest) => (.expression inside, rest)
    else none

def read? (t : Text) : Option (Attribute × Text) := do
  let (key, behind) ← Text.takeName? t
  let sign ← Text.dropLiteral? ['='] (Text.dropBlanks behind)
  let (value, rest) ← Value.read? (Text.dropBlanks sign)
  return (⟨key, value⟩, rest)

theorem Value.read?_shorter {t rest : Text} {value : Value} (h : Value.read? t = some (value, rest)) :
    rest.length < t.length := by
  unfold Value.read? at h
  split at h
  · simp at h
  · next c t =>
    split at h
    · split at h
      · simp at h
      · next close rest' found =>
        simp only [Option.some.injEq, Prod.mk.injEq] at h
        have bound := (List.dropWhile_sublist (!isQuote ·) (l := t)).length_le
        rw [found, h.2] at bound
        simp at bound ⊢
        omega
    · split at h
      · simp only [Option.map_eq_some_iff, Prod.exists, Prod.mk.injEq] at h
        obtain ⟨inside, after, found, rfl, rfl⟩ := h
        have split := (Text.splitFirst?_eq_some found).1
        simp [split]
        omega
      · simp at h

theorem read?_shorter {t rest : Text} {item : Attribute} (h : read? t = some (item, rest)) :
    rest.length < t.length := by
  simp only [read?, Option.bind_eq_bind, Option.bind_eq_some_iff, Prod.exists, Option.pure_def,
    Option.some.injEq, Prod.mk.injEq] at h
  obtain ⟨key, behind, name, sign, equal, value, after, read, rfl, rfl⟩ := h
  have h1 := congrArg List.length (Text.takeName?_eq_some name).1
  have h2 := congrArg List.length (Text.dropLiteral?_eq_some equal)
  have h3 := Value.read?_shorter read
  have h4 := Text.length_dropBlanks_le behind
  have h5 := Text.length_dropBlanks_le sign
  simp at h1 h2
  omega

def pattern : Pattern Attribute := ⟨read?, read?_shorter⟩

/-- The attributes in source order; a key may come back. -/
def parse (raw : Text) : List Attribute := pattern.occurrences raw

def entry (item : Attribute) : Text := item.key ++ ": ".toList ++ item.value.source

def literal : List Attribute → Text
  | [] => "null".toList
  | items => '{' :: (List.intercalate [','] (items.map entry) ++ ['}'])

end Attribute
end TagCalls
