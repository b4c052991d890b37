import Mathlib.Data.Nat.Digits.Lemmas
import TagCalls.Style.Hash

/-!
Names as numerals of base 36. Each number has one numeral without leading zeros, and the name of a hash is the one of
its absolute value; so two contents share a name exactly if their hashes are equal up to the sign. Main statement:
`base36_faithful`.
-/
namespace TagCalls.Style

def alphabet : Text := "0123456789abcdefghijklmnopqrstuvwxyz".toList

def value36 (t : Text) : Nat := Nat.ofDigits 36 (t.reverse.map alphabet.idxOf)

/-- Digits only, at least one of them, and no zero before others. -/
structure Numeral (t : Text) : Prop where
  nonempty : t ≠ []
  digits : ∀ c ∈ t, c ∈ alphabet
  lead : t.head? = some '0' → t = ['0']

/-- The absolute value of a hash in 64 bits, where the least hash has one too. -/
def magnitude (hash : Int32) : UInt64 := hash.toInt64.abs.toUInt64

/-- The digits of a word by repeated division, behind those that are taken already: the last digit comes first. -/
def divisions? (word : UInt64) (taken : Text) : Option Text :=
  if word = 0 then some taken
  else do
    let digit ← alphabet[(word % 36).toNat]?
    divisions? (word / 36) (taken ++ [digit])
termination_by word.toNat
decreasing_by
  rename_i positive
  rw [UInt64.toNat_div]
  exact Nat.div_lt_self (Nat.pos_of_ne_zero fun zero => positive (UInt64.toNat_inj.mp zero)) (by decide)

def divide? (hash : Int32) : Option Text :=
  if magnitude hash = 0 then some ['0'] else (divisions? (magnitude hash) []).map List.reverse

/-! ### Digits -/

theorem getElem?_alphabet : ∀ n < 36, alphabet[n]? = some (digit36 n) := by decide

theorem idxOf_digit36 : ∀ n < 36, alphabet.idxOf (digit36 n) = n := by decide

theorem digit36_mem {n : Nat} (bound : n < 36) : digit36 n ∈ alphabet :=
  List.mem_of_getElem? (getElem?_alphabet n bound)

theorem digit36_idxOf {c : Char} (member : c ∈ alphabet) : alphabet.idxOf c < 36 ∧ digit36 (alphabet.idxOf c) = c := by
  have size : alphabet.length = 36 := by decide
  have bound : alphabet.idxOf c < 36 := size ▸ List.idxOf_lt_length_of_mem member
  have here : alphabet[alphabet.idxOf c]? = some c := List.getElem?_idxOf member
  rw [getElem?_alphabet _ bound] at here
  exact ⟨bound, Option.some.inj here⟩

theorem digit36_eq_zero {d : Nat} (bound : d < 36) (same : digit36 d = '0') : d = 0 := by
  have zero : alphabet.idxOf '0' = 0 := by decide
  rw [← idxOf_digit36 d bound, same, zero]

theorem map_idxOf {digits : List Nat} (bounds : ∀ d ∈ digits, d < 36) :
    (digits.map digit36).map alphabet.idxOf = digits := by
  have same : ∀ d ∈ digits, (alphabet.idxOf ∘ digit36) d = id d := fun d member => idxOf_digit36 d (bounds d member)
  rw [List.map_map, List.map_congr_left same, List.map_id]

theorem map_digit36 {t : Text} (digits : ∀ c ∈ t, c ∈ alphabet) : (t.map alphabet.idxOf).map digit36 = t := by
  have same : ∀ c ∈ t, (digit36 ∘ alphabet.idxOf) c = id c := fun c member => (digit36_idxOf (digits c member)).2
  rw [List.map_map, List.map_congr_left same, List.map_id]

/-! ### Numerals of numbers -/

theorem digits36_zero : digits36 0 = ['0'] := by
  rw [digits36]
  rfl

theorem digits36_eq {n : Nat} (positive : n ≠ 0) : digits36 n = ((Nat.digits 36 n).map digit36).reverse := by
  induction n using Nat.strongRecOn with
  | ind n ih =>
    rw [digits36]
    split
    · next small =>
      rw [Nat.digits_of_lt 36 n positive small]
      rfl
    · next large =>
      have front : n / 36 ≠ 0 := by omega
      rw [ih (n / 36) (by omega) front, Nat.digits_def' (by decide) (Nat.pos_of_ne_zero positive), List.map_cons,
        List.reverse_cons]

theorem value36_digits36 (n : Nat) : value36 (digits36 n) = n := by
  by_cases zero : n = 0
  · subst zero
    rw [digits36_zero]
    rfl
  · have bounds : ∀ d ∈ Nat.digits 36 n, d < 36 := fun d member => Nat.digits_lt_base (by decide) member
    calc value36 (digits36 n)
      _ = Nat.ofDigits 36 (((Nat.digits 36 n).map digit36).map alphabet.idxOf) := by
        rw [value36, digits36_eq zero, List.reverse_reverse]
      _ = Nat.ofDigits 36 (Nat.digits 36 n) := by rw [map_idxOf bounds]
      _ = n := Nat.ofDigits_digits 36 n

theorem numeral_digits36 (n : Nat) : Numeral (digits36 n) := by
  by_cases zero : n = 0
  · subst zero
    rw [digits36_zero]
    exact ⟨List.cons_ne_nil _ _, List.forall_mem_singleton.mpr (@digit36_mem 0 (by decide)), fun _ => rfl⟩
  · have bounds : ∀ d ∈ Nat.digits 36 n, d < 36 := fun d member => Nat.digits_lt_base (by decide) member
    have nonempty : Nat.digits 36 n ≠ [] := Nat.digits_ne_nil_iff_ne_zero.mpr zero
    rw [digits36_eq zero]
    refine ⟨?_, ?_, ?_⟩
    · simpa using nonempty
    · intro c member
      rw [List.mem_reverse] at member
      obtain ⟨d, inside, rfl⟩ := List.mem_map.mp member
      exact digit36_mem (bounds d inside)
    · intro lead
      -- The first digit is the last remainder, which is not zero.
      rw [List.head?_reverse, List.getLast?_map, List.getLast?_eq_some_getLast nonempty] at lead
      have first := digit36_eq_zero (bounds _ (List.getLast_mem nonempty)) (Option.some.inj lead)
      exact absurd first (Nat.getLast_digit_ne_zero 36 zero)

theorem digits36_value36 {t : Text} (numeral : Numeral t) : digits36 (value36 t) = t := by
  by_cases zero : t = ['0']
  · subst zero
    exact digits36_zero
  · have inside : ∀ c ∈ t.reverse, c ∈ alphabet := fun c member => numeral.digits c (List.mem_reverse.mp member)
    have bounds : ∀ d ∈ t.reverse.map alphabet.idxOf, d < 36 := by
      intro d member
      obtain ⟨c, present, rfl⟩ := List.mem_map.mp member
      exact (digit36_idxOf (inside c present)).1
    have lead : ∀ nonempty, (t.reverse.map alphabet.idxOf).getLast nonempty ≠ 0 := by
      intro nonempty last
      rw [List.getLast_map, List.getLast_reverse] at last
      have front := (digit36_idxOf (numeral.digits _ (List.head_mem numeral.nonempty))).2
      rw [last] at front
      have first := List.head?_eq_some_head numeral.nonempty
      rw [← front] at first
      exact zero (numeral.lead first)
    have digits : Nat.digits 36 (value36 t) = t.reverse.map alphabet.idxOf :=
      Nat.digits_ofDigits 36 (by decide) _ bounds lead
    have positive : value36 t ≠ 0 := by
      rw [← Nat.digits_ne_nil_iff_ne_zero, digits]
      simpa using numeral.nonempty
    calc digits36 (value36 t)
      _ = ((t.reverse.map alphabet.idxOf).map digit36).reverse := by rw [digits36_eq positive, digits]
      _ = t.reverse.reverse := by rw [map_digit36 inside]
      _ = t := List.reverse_reverse t

/-! ### Division of words -/

theorem toNat_magnitude (hash : Int32) : (magnitude hash).toNat = hash.toInt.natAbs := by
  have signed : hash.toInt64.toBitVec.toInt = hash.toInt := Int32.toInt_toInt64 hash
  have bound := hash.toInt64.toBitVec.isLt
  rw [← signed, BitVec.toInt_eq_msb_cond]
  change hash.toInt64.toBitVec.abs.toNat = _
  rw [BitVec.toNat_abs]
  split <;> omega

theorem divisions?_eq (word : UInt64) (taken : Text) :
    divisions? word taken = some (taken ++ (Nat.digits 36 word.toNat).map digit36) := by
  induction size : word.toNat using Nat.strongRecOn generalizing word taken with
  | ind n ih =>
    rw [divisions?]
    by_cases zero : word = 0
    · subst zero
      rw [if_pos rfl, ← size]
      simp
    · have positive : 0 < n := size ▸ Nat.pos_of_ne_zero fun none => zero (UInt64.toNat_inj.mp none)
      have last : (word % 36).toNat = n % 36 := by
        rw [UInt64.toNat_mod, size]
        rfl
      have front : (word / 36).toNat = n / 36 := by
        rw [UInt64.toNat_div, size]
        rfl
      have rest := ih (n / 36) (Nat.div_lt_self positive (by decide)) (word / 36) (taken ++ [digit36 (n % 36)]) front
      rw [if_neg zero, last, getElem?_alphabet _ (Nat.mod_lt n (by decide)), Nat.digits_def' (by decide) positive,
        List.map_cons, Option.bind_eq_bind, Option.bind_some, rest, List.append_assoc]
      rfl

theorem divide?_eq (hash : Int32) : divide? hash = some (base36 hash) := by
  have size := toNat_magnitude hash
  rw [divide?, base36, ← size]
  split
  · next zero =>
    rw [zero]
    exact congrArg some digits36_zero.symm
  · next positive =>
    have other : (magnitude hash).toNat ≠ 0 := fun none => positive (UInt64.toNat_inj.mp none)
    rw [divisions?_eq, digits36_eq other]
    rfl

/-! ### Names -/

theorem base36_eq_iff {hash : Int32} {t : Text} : base36 hash = t ↔ Numeral t ∧ value36 t = hash.toInt.natAbs := by
  constructor
  · intro same
    subst same
    exact ⟨numeral_digits36 _, value36_digits36 _⟩
  · intro both
    rw [base36, ← both.2]
    exact digits36_value36 both.1

theorem base36_inj {a b : Int32} : base36 a = base36 b ↔ a.toInt.natAbs = b.toInt.natAbs := by
  constructor
  · intro same
    calc a.toInt.natAbs
      _ = value36 (base36 a) := (value36_digits36 _).symm
      _ = value36 (base36 b) := by rw [same]
      _ = b.toInt.natAbs := value36_digits36 _
  · intro same
    rw [base36, same, base36]

theorem className_inj {s t : Text} :
    className s = className t ↔ contentHash s = contentHash t ∨ (contentHash s).toInt = -(contentHash t).toInt := by
  rw [className, className, List.cons_inj_right, base36_inj, Int.natAbs_eq_natAbs_iff, Int32.toInt_inj]

/-- The numeral of a hash, as division of words makes it, is the one numeral of base 36 that is worth the hash
without its sign. So hashes share it exactly if they differ in the sign at most, and so do contents that share a
name. -/
theorem base36_faithful (a b : Int32) (s t : Text) :
    divide? a = some (base36 a) ∧
    (∀ text, base36 a = text ↔ Numeral text ∧ value36 text = a.toInt.natAbs) ∧
    (base36 a = base36 b ↔ a.toInt.natAbs = b.toInt.natAbs) ∧
    (className s = className t ↔
      contentHash s = contentHash t ∨ (contentHash s).toInt = -(contentHash t).toInt) :=
  ⟨divide?_eq a, fun _ => base36_eq_iff, base36_inj, className_inj⟩

example : base36 (-2147483648) = "zik0zk".toList := by decide +kernel

end TagCalls.Style
