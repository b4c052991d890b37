import TagCalls.Text.Basic

/-!
Patterns and their leftmost occurrences. A pattern reads a form at the head of a text; going through
a text from the left, every place where it reads becomes one occurrence, and the search goes on
behind it. Main statement: `first?` splits the text at the earliest place where the pattern reads.
-/
namespace TagCalls

/-- A form that can be read at the head of a text, leaving a shorter rest. -/
structure Pattern (α : Type) where
  read? : Text → Option (α × Text)
  shorter : ∀ {t a rest}, read? t = some (a, rest) → rest.length < t.length

inductive Segment (α : Type) where
  | plain (c : Char)
  | found (value : α)
  deriving DecidableEq, Repr

namespace Pattern

variable {α : Type}

/-- The text cut into its leftmost occurrences, which do not overlap, and the characters between. -/
def segments (p : Pattern α) : Text → List (Segment α)
  | [] => []
  | c :: t =>
    match _read : p.read? (c :: t) with
    | some (value, rest) => .found value :: p.segments rest
    | none => .plain c :: p.segments t
termination_by t => t.length
decreasing_by
  · exact p.shorter (by assumption)
  · simp

def occurrences (p : Pattern α) (t : Text) : List α :=
  (p.segments t).filterMap fun
    | .plain _ => none
    | .found value => some value

def replace (p : Pattern α) (write : α → Text) (t : Text) : Text :=
  (p.segments t).flatMap fun
    | .plain c => [c]
    | .found value => write value

def first? (p : Pattern α) : Text → Option (Text × α × Text)
  | [] => none
  | c :: t =>
    match p.read? (c :: t) with
    | some (value, rest) => some ([], value, rest)
    | none => (p.first? t).map fun (gap, value, rest) => (c :: gap, value, rest)

def word (c : Char) (tail : Text) : Pattern Unit where
  read? t := (Text.dropLiteral? (c :: tail) t).map fun rest => ((), rest)
  shorter h := by
    simp only [Option.map_eq_some_iff, Prod.mk.injEq] at h
    obtain ⟨_, found, _, rfl⟩ := h
    rw [Text.dropLiteral?_eq_some found]
    simp only [List.length_append, List.length_cons]
    omega

theorem segments_of_read {p : Pattern α} {c : Char} {t rest : Text} {value : α}
    (read : p.read? (c :: t) = some (value, rest)) :
    p.segments (c :: t) = .found value :: p.segments rest := by
  rw [segments]
  split
  · next found => rw [read] at found; cases found; rfl
  · next found => rw [read] at found; cases found

theorem segments_of_none {p : Pattern α} {c : Char} {t : Text} (read : p.read? (c :: t) = none) :
    p.segments (c :: t) = .plain c :: p.segments t := by
  rw [segments]
  split
  · next found => rw [read] at found; cases found
  · rfl

end Pattern
end TagCalls
