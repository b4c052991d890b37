import TagCalls.Tag.Basic
import TagCalls.Text.Pattern

/-!
The three forms of tags as patterns that look at angle brackets only: a tag ends at the first `>`,
wherever that stands.
-/
namespace TagCalls.Tag

def dropSlash? (t : Text) : Option Text :=
  if t.getLast? = some '/' then some t.dropLast else none

/-- Name and raw attributes of a tag that is not a closing one, and what follows its `>`. -/
def readBracketed? (t : Text) : Option (Text × Text × Text) := do
  let inside ← Text.dropLiteral? ['<'] t
  let (body, rest) ← Text.splitFirst? '>' inside
  let (name, raw) ← Text.takeName? body
  return (name, raw, rest)

def readSelfClosing? (t : Text) : Option (Tag × Text) := do
  let (name, behind, rest) ← readBracketed? t
  let raw ← dropSlash? behind
  return (⟨.selfClosing, name, raw⟩, rest)

def readOpening? (t : Text) : Option (Tag × Text) := do
  let (name, raw, rest) ← readBracketed? t
  return (⟨.opening, name, raw⟩, rest)

def readClosing? (t : Text) : Option (Tag × Text) := do
  let inside ← Text.dropLiteral? "</".toList t
  let (name, behind) ← Text.takeName? inside
  let rest ← Text.dropLiteral? ['>'] behind
  return (⟨.closing, name, []⟩, rest)

theorem readBracketed?_eq_some {t name raw rest : Text} (h : readBracketed? t = some (name, raw, rest)) :
    t = '<' :: (name ++ raw ++ '>' :: rest) ∧ name ≠ [] ∧ '>' ∉ raw := by
  simp only [readBracketed?, Option.bind_eq_bind, Option.bind_eq_some_iff, Prod.exists, Option.pure_def,
    Option.some.injEq, Prod.mk.injEq] at h
  obtain ⟨inside, h1, body, _, h2, _, _, h3, rfl, rfl, rfl⟩ := h
  obtain ⟨rfl, absent⟩ := Text.splitFirst?_eq_some h2
  obtain ⟨rfl, named⟩ := Text.takeName?_eq_some h3
  refine ⟨by simpa using Text.dropLiteral?_eq_some h1, named, fun member => absent ?_⟩
  exact List.mem_append_right _ member

theorem readClosing?_eq_some {t rest : Text} {tag : Tag} (h : readClosing? t = some (tag, rest)) :
    ∃ name, tag = ⟨.closing, name, []⟩ ∧ name ≠ [] ∧ t = tag.render ++ rest := by
  simp only [readClosing?, Option.bind_eq_bind, Option.bind_eq_some_iff, Prod.exists, Option.pure_def,
    Option.some.injEq, Prod.mk.injEq] at h
  obtain ⟨inside, h1, name, behind, h2, _, h3, rfl, rfl⟩ := h
  have e1 := Text.dropLiteral?_eq_some h1
  obtain ⟨e2, named⟩ := Text.takeName?_eq_some h2
  have e3 := Text.dropLiteral?_eq_some h3
  exact ⟨name, rfl, named, by simp [e1, e2, e3, render]⟩

theorem readSelfClosing?_shorter {t rest : Text} {tag : Tag} (h : readSelfClosing? t = some (tag, rest)) :
    rest.length < t.length := by
  simp only [readSelfClosing?, Option.bind_eq_bind, Option.bind_eq_some_iff, Prod.exists, Option.pure_def,
    Option.some.injEq, Prod.mk.injEq] at h
  obtain ⟨_, _, _, h1, _, _, _, rfl⟩ := h
  simp [(readBracketed?_eq_some h1).1]
  omega

theorem readOpening?_shorter {t rest : Text} {tag : Tag} (h : readOpening? t = some (tag, rest)) :
    rest.length < t.length := by
  simp only [readOpening?, Option.bind_eq_bind, Option.bind_eq_some_iff, Prod.exists, Option.pure_def,
    Option.some.injEq, Prod.mk.injEq] at h
  obtain ⟨_, _, _, h1, _, rfl⟩ := h
  simp [(readBracketed?_eq_some h1).1]
  omega

theorem readClosing?_shorter {t rest : Text} {tag : Tag} (h : readClosing? t = some (tag, rest)) :
    rest.length < t.length := by
  obtain ⟨name, rfl, _, rfl⟩ := readClosing?_eq_some h
  simp [render]
  omega

def selfClosing : Pattern Tag := ⟨readSelfClosing?, readSelfClosing?_shorter⟩

def opening : Pattern Tag := ⟨readOpening?, readOpening?_shorter⟩

def closing : Pattern Tag := ⟨readClosing?, readClosing?_shorter⟩

end TagCalls.Tag
