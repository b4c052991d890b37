import TagCalls.Text.Basic

/-!
Names, literals and first occurrences at the head of a text. The readers of `Text` give what they
look for exactly when it stands there: each has a lemma for the text that it accepts and one for
the text that it refuses.
-/
namespace TagCalls.Text

structure IsName (name : Text) : Prop where
  nonempty : name ≠ []
  chars : ∀ c ∈ name, isNameChar c

instance (name : Text) : Decidable (IsName name) :=
  decidable_of_iff (name ≠ [] ∧ name.all isNameChar) <| by
    constructor
    · intro checked
      rcases checked with ⟨nonempty, chars⟩
      exact ⟨nonempty, List.all_eq_true.mp chars⟩
    · intro named
      rcases named with ⟨nonempty, chars⟩
      exact ⟨nonempty, List.all_eq_true.mpr chars⟩

def NameStops (t : Text) : Prop := ∀ c ∈ t.head?, isNameChar c = false

theorem nameStops_nil : NameStops [] := by
  intro c member
  cases member

theorem nameStops_cons {c : Char} {t : Text} : NameStops (c :: t) ↔ isNameChar c = false := by
  simp [NameStops]

theorem IsName.head {name : Text} (named : IsName name) :
    ∃ c tail, name = c :: tail ∧ isNameChar c := by
  cases name with
  | nil => exact absurd rfl named.nonempty
  | cons c tail => exact ⟨c, tail, rfl, named.chars c (by simp)⟩

theorem not_mem_of_isName {name : Text} {c : Char} (named : IsName name)
    (other : isNameChar c = false) : c ∉ name := by
  intro member
  rw [named.chars c member] at other
  cases other

theorem dropWhile_of_nameStops {t : Text} (stops : NameStops t) : t.dropWhile isNameChar = t := by
  cases t with
  | nil => rfl
  | cons c t => simp [nameStops_cons.mp stops]

theorem takeWhile_of_nameStops {t : Text} (stops : NameStops t) : t.takeWhile isNameChar = [] := by
  cases t with
  | nil => rfl
  | cons c t => simp [nameStops_cons.mp stops]

theorem nameStops_dropWhile (t : Text) : NameStops (t.dropWhile isNameChar) := by
  induction t with
  | nil => exact nameStops_nil
  | cons c t ih =>
    by_cases letter : isNameChar c
    · simpa [letter] using ih
    · simpa [letter] using nameStops_cons.mpr (by simpa using letter)

theorem takeName?_append {name rest : Text} (named : IsName name) (stops : NameStops rest) :
    takeName? (name ++ rest) = some (name, rest) := by
  have taken : (name ++ rest).takeWhile isNameChar = name := by
    rw [List.takeWhile_append_of_pos named.chars, takeWhile_of_nameStops stops, List.append_nil]
  have left : (name ++ rest).dropWhile isNameChar = rest := by
    rw [List.dropWhile_append_of_pos named.chars, dropWhile_of_nameStops stops]
  unfold takeName?
  rw [taken, left]
  cases name with
  | nil => exact absurd rfl named.nonempty
  | cons c name => rfl

theorem takeName?_eq_none {t : Text} (stops : NameStops t) : takeName? t = none := by
  unfold takeName?
  rw [takeWhile_of_nameStops stops]

theorem takeName?_eq_some_iff {t name rest : Text} :
    takeName? t = some (name, rest) ↔ t = name ++ rest ∧ IsName name ∧ NameStops rest := by
  constructor
  · intro taken
    rcases takeName?_eq_some taken with ⟨split, nonempty⟩
    unfold takeName? at taken
    split at taken
    · cases taken
    · simp only [Option.some.injEq, Prod.mk.injEq] at taken
      rcases taken with ⟨rfl, rfl⟩
      refine ⟨split, ⟨nonempty, ?_⟩, nameStops_dropWhile t⟩
      intro c member
      exact List.all_eq_true.mp List.all_takeWhile c member
  · intro shape
    rcases shape with ⟨rfl, named, stops⟩
    exact takeName?_append named stops

theorem dropLiteral?_append (literal t : Text) : dropLiteral? literal (literal ++ t) = some t := by
  induction literal with
  | nil => rfl
  | cons x literal ih => simpa [dropLiteral?] using ih

theorem splitFirst?_append {x : Char} {before : Text} (absent : x ∉ before) (after : Text) :
    splitFirst? x (before ++ x :: after) = some (before, after) := by
  induction before with
  | nil => simp [splitFirst?]
  | cons c before ih =>
    rcases not_or.mp (fun h => absent (List.mem_cons.mpr h)) with ⟨other, rest⟩
    simp [splitFirst?, Ne.symm other, ih rest]

theorem splitFirst?_eq_none {x : Char} {t : Text} (absent : x ∉ t) : splitFirst? x t = none := by
  cases found : splitFirst? x t with
  | none => rfl
  | some parts =>
    rcases parts with ⟨before, after⟩
    rcases splitFirst?_eq_some found with ⟨rfl, _⟩
    exact absurd (by simp) absent

end TagCalls.Text
