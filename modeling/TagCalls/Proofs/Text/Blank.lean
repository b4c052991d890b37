import TagCalls.Proofs.Text.Lexeme
import TagCalls.Text.Blank

/-!
White space at the head of a text. The readers of `Text` drop it as far as it goes, so that what they leave
begins with another character.
-/
namespace TagCalls.Text

def Blank (t : Text) : Prop := ∀ c ∈ t, isBlank c

def BlankStops (t : Text) : Prop := ∀ c ∈ t.head?, isBlank c = false

theorem blankStops_cons {c : Char} {t : Text} : BlankStops (c :: t) ↔ isBlank c = false := by
  simp [BlankStops]

theorem blank_nil : Blank [] := by
  intro c member
  cases member

theorem blank_cons {c : Char} {t : Text} : Blank (c :: t) ↔ isBlank c ∧ Blank t :=
  List.forall_mem_cons

theorem isBlank_of_isNameChar {c : Char} (letter : isNameChar c) : isBlank c = false := by
  have range : 48 ≤ c.toNat ∧ c.toNat ≤ 122 := by
    delta isNameChar Char.isAlphanum Char.isAlpha Char.isUpper Char.isLower Char.isDigit at letter
    simp only [Bool.or_eq_true, Bool.and_eq_true, decide_eq_true_eq, beq_iff_eq, ge_iff_le,
      UInt32.le_iff_toNat_le] at letter
    have same : c.toNat = c.val.toNat := rfl
    have limits : 'A'.val.toNat = 65 ∧ 'Z'.val.toNat = 90 ∧ 'a'.val.toNat = 97 ∧ 'z'.val.toNat = 122 ∧
      '0'.val.toNat = 48 ∧ '9'.val.toNat = 57 := by decide
    rcases letter with ((upper | lower) | digit) | rfl
    · omega
    · omega
    · omega
    · decide
  simp only [isBlank, blankRanges, List.any_cons, List.any_nil, Bool.or_false, Bool.or_eq_false_iff,
    Bool.and_eq_false_iff, decide_eq_false_iff_not]
  omega

theorem isNameChar_of_isBlank {c : Char} (blank : isBlank c) : isNameChar c = false := by
  cases letter : isNameChar c with
  | false => rfl
  | true =>
    rw [isBlank_of_isNameChar letter] at blank
    cases blank

theorem blankStops_dropBlanks (t : Text) : BlankStops (dropBlanks t) := by
  intro c first
  have stop := List.head?_dropWhile_not isBlank t
  rw [dropBlanks] at first
  rw [Option.mem_def.mp first] at stop
  simpa using stop

theorem dropBlanks_of_blankStops {t : Text} (stops : BlankStops t) : dropBlanks t = t := by
  cases t with
  | nil => rfl
  | cons c t => simp [dropBlanks, blankStops_cons.mp stops]

theorem dropBlanks_append {gap : Text} (blank : Blank gap) (t : Text) : dropBlanks (gap ++ t) = dropBlanks t :=
  List.dropWhile_append_of_pos blank

theorem dropBlanks_eq_iff {t rest : Text} :
    dropBlanks t = rest ↔ ∃ gap, t = gap ++ rest ∧ Blank gap ∧ BlankStops rest := by
  constructor
  · intro dropped
    subst dropped
    refine ⟨t.takeWhile isBlank, List.takeWhile_append_dropWhile.symm, ?_, blankStops_dropBlanks t⟩
    exact List.all_eq_true.mp List.all_takeWhile
  · intro shape
    rcases shape with ⟨gap, rfl, blank, stops⟩
    rw [dropBlanks_append blank, dropBlanks_of_blankStops stops]

theorem dropSomeBlanks?_eq_some_iff {t rest : Text} :
    dropSomeBlanks? t = some rest ↔ ∃ gap, t = gap ++ rest ∧ gap ≠ [] ∧ Blank gap ∧ BlankStops rest := by
  constructor
  · intro dropped
    cases t with
    | nil => cases dropped
    | cons c t =>
      simp only [dropSomeBlanks?] at dropped
      split at dropped
      · next first =>
        rcases dropBlanks_eq_iff.mp (Option.some.inj dropped) with ⟨gap, rfl, blank, stops⟩
        exact ⟨c :: gap, rfl, by simp, blank_cons.mpr ⟨first, blank⟩, stops⟩
      · cases dropped
  · intro shape
    rcases shape with ⟨gap, rfl, nonempty, blank, stops⟩
    cases gap with
    | nil => exact absurd rfl nonempty
    | cons c gap =>
      rcases blank_cons.mp blank with ⟨first, others⟩
      simp only [List.cons_append, dropSomeBlanks?, first, if_true]
      rw [dropBlanks_append others, dropBlanks_of_blankStops stops]

theorem IsName.blankStops {name : Text} (named : IsName name) (t : Text) : BlankStops (name ++ t) := by
  rcases named.head with ⟨c, tail, rfl, letter⟩
  exact blankStops_cons.mpr (isBlank_of_isNameChar letter)

theorem nameStops_append {gap rest : Text} (blank : Blank gap) (stops : NameStops rest) : NameStops (gap ++ rest) := by
  cases gap with
  | nil => exact stops
  | cons c gap => exact nameStops_cons.mpr (isNameChar_of_isBlank (blank c List.mem_cons_self))

end TagCalls.Text
