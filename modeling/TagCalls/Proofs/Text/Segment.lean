import TagCalls.Text.Pattern

/-!
Texts put together from segments, and the substitution of a pattern's occurrences step by step: a
character at which nothing is read is kept, and an occurrence is written anew. A part of the text in
which nothing is read is passed over as a whole.
-/
namespace TagCalls

variable {α : Type}

def Segment.join (write : α → Text) (segments : List (Segment α)) : Text :=
  segments.flatMap fun
    | .plain c => [c]
    | .found value => write value

namespace Segment

@[simp] theorem join_nil (write : α → Text) : join write [] = [] := rfl

@[simp] theorem join_plain (write : α → Text) (c : Char) (segments : List (Segment α)) :
    join write (.plain c :: segments) = c :: join write segments := rfl

@[simp] theorem join_found (write : α → Text) (value : α) (segments : List (Segment α)) :
    join write (.found value :: segments) = write value ++ join write segments := rfl

theorem join_append (write : α → Text) (first second : List (Segment α)) :
    join write (first ++ second) = join write first ++ join write second :=
  List.flatMap_append

theorem join_map_plain (write : α → Text) (t : Text) : join write (t.map .plain) = t := by
  induction t with
  | nil => rfl
  | cons c t ih => rw [List.map_cons, join_plain, ih]

def values (segments : List (Segment α)) : List α :=
  segments.filterMap fun
    | .plain _ => none
    | .found value => some value

theorem values_append_plain (t : Text) (segments : List (Segment α)) :
    values (t.map .plain ++ segments) = values segments := by
  induction t with
  | nil => rfl
  | cons c t ih => exact ih

end Segment

namespace Pattern

theorem replace_nil (p : Pattern α) (write : α → Text) : p.replace write [] = [] := by
  rw [replace, segments]
  rfl

theorem replace_of_none {p : Pattern α} {c : Char} {t : Text} (write : α → Text)
    (silent : p.read? (c :: t) = none) : p.replace write (c :: t) = c :: p.replace write t := by
  rw [replace, segments_of_none silent]
  rfl

theorem replace_of_read {p : Pattern α} {t rest : Text} {value : α} (write : α → Text)
    (found : p.read? t = some (value, rest)) : p.replace write t = write value ++ p.replace write rest := by
  cases t with
  | nil => exact absurd (p.shorter found) (Nat.not_lt_zero _)
  | cons c t =>
    rw [replace, segments_of_read found]
    rfl

theorem occurrences_nil (p : Pattern α) : p.occurrences [] = [] := by
  rw [occurrences, segments]
  rfl

theorem occurrences_of_none {p : Pattern α} {c : Char} {t : Text} (silent : p.read? (c :: t) = none) :
    p.occurrences (c :: t) = p.occurrences t := by
  rw [occurrences, segments_of_none silent]
  rfl

theorem occurrences_of_read {p : Pattern α} {t rest : Text} {value : α}
    (found : p.read? t = some (value, rest)) : p.occurrences t = value :: p.occurrences rest := by
  cases t with
  | nil => exact absurd (p.shorter found) (Nat.not_lt_zero _)
  | cons c t =>
    rw [occurrences, segments_of_read found]
    rfl

/-! ### Parts of the text in which nothing is read -/

/-- Nothing is read from the first part of a text, with the second behind it. -/
def Silent (p : Pattern α) (gap rest : Text) : Prop :=
  ∀ back, back <:+ gap → back ≠ [] → p.read? (back ++ rest) = none

theorem Silent.of_cons {p : Pattern α} {c : Char} {gap rest : Text} (silent : p.Silent (c :: gap) rest) :
    p.read? (c :: (gap ++ rest)) = none ∧ p.Silent gap rest := by
  constructor
  · exact silent (c :: gap) (List.suffix_refl _) (by simp)
  · intro back shorter
    exact silent back (shorter.trans (List.suffix_cons c gap))

theorem Silent.append {p : Pattern α} {first second rest : Text} (one : p.Silent first (second ++ rest))
    (two : p.Silent second rest) : p.Silent (first ++ second) rest := by
  intro back shorter nonempty
  rcases List.suffix_or_suffix_of_suffix shorter (List.suffix_append first second) with inSecond | longer
  · exact two back inSecond nonempty
  · rcases longer with ⟨front, rfl⟩
    have inFirst : front <:+ first := List.suffix_append_self_iff.mp shorter
    by_cases empty : front = []
    · subst empty
      exact two second (List.suffix_refl _) nonempty
    · rw [List.append_assoc]
      exact one front inFirst empty

theorem segments_append {p : Pattern α} {gap rest : Text} (silent : p.Silent gap rest) :
    p.segments (gap ++ rest) = gap.map .plain ++ p.segments rest := by
  induction gap with
  | nil => rfl
  | cons c gap ih =>
    rcases silent.of_cons with ⟨here, behind⟩
    rw [List.cons_append, segments_of_none here, ih behind, List.map_cons, List.cons_append]

theorem occurrences_append {p : Pattern α} {gap rest : Text} (silent : p.Silent gap rest) :
    p.occurrences (gap ++ rest) = p.occurrences rest := by
  change Segment.values (p.segments (gap ++ rest)) = Segment.values (p.segments rest)
  rw [segments_append silent, Segment.values_append_plain]

theorem first?_append {p : Pattern α} {gap rest behind : Text} {value : α} (silent : p.Silent gap rest)
    (read : p.read? rest = some (value, behind)) : p.first? (gap ++ rest) = some (gap, value, behind) := by
  induction gap with
  | nil =>
    cases rest with
    | nil => exact absurd (p.shorter read) (Nat.not_lt_zero _)
    | cons c rest => rw [List.nil_append, first?, read]
  | cons c gap ih =>
    rcases silent.of_cons with ⟨here, behind⟩
    rw [List.cons_append, first?, here, ih behind]
    rfl

theorem replace_append (p : Pattern α) (write : α → Text) (first : Char)
    (elsewhere : ∀ c t, c ≠ first → p.read? (c :: t) = none) (gap rest : Text) (absent : first ∉ gap) :
    p.replace write (gap ++ rest) = gap ++ p.replace write rest := by
  have silent : p.Silent gap rest := by
    intro back shorter nonempty
    cases back with
    | nil => exact absurd rfl nonempty
    | cons c back =>
      apply elsewhere
      intro same
      exact absent (same ▸ shorter.subset List.mem_cons_self)
  calc
    p.replace write (gap ++ rest) = Segment.join write (gap.map .plain ++ p.segments rest) :=
      congrArg (Segment.join write) (segments_append silent)
    _ = gap ++ p.replace write rest := by
      rw [Segment.join_append, Segment.join_map_plain]
      rfl

end Pattern
end TagCalls
