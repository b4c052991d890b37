import Mathlib.Algebra.BigOperators.Group.Finset.Basic
import Mathlib.Data.Int.ModEq
import Mathlib.Tactic.Ring
import TagCalls.Style.Hash

/-!
The hash of a text as a number of base 31, modulo the number of 32-bit values. Its digits are the 16-bit units of
the text; so a text behind another one moves the hash of the first by a power of 31, and texts of one length with
one hash keep it in common in any surroundings. Main statement: `contentHash_polynomial`.
-/
namespace TagCalls.Style

abbrev modulus : Int := 4294967296

/-- The units that encode a text: one that is the number of the character, or two surrogates that share it. -/
inductive Encodes : List UInt16 → Text → Prop
  | nil : Encodes [] []
  | one {unit : UInt16} {c : Char} {units : List UInt16} {t : Text} : unit.toNat = c.toNat → Encodes units t →
      Encodes (unit :: units) (c :: t)
  | two {high low : UInt16} {c : Char} {units : List UInt16} {t : Text} :
      0xD800 ≤ high.toNat → high.toNat < 0xDC00 → 0xDC00 ≤ low.toNat → low.toNat < 0xE000 →
      c.toNat = 0x10000 + (high.toNat - 0xD800) * 0x400 + (low.toNat - 0xDC00) → Encodes units t →
      Encodes (high :: low :: units) (c :: t)

def polynomial (units : List UInt16) : Nat :=
  ∑ i ∈ Finset.range units.length, (units.getD i 0).toNat * 31 ^ (units.length - 1 - i)

/-- A shift to the left, by less than the number of bits only. -/
def shift? (hash amount : Int32) : Option Int32 :=
  if 0 ≤ amount ∧ amount < 32 then some (hash <<< amount) else none

/-- A step of the hash by shift and subtraction; differences and sums wrap around. -/
def step? (hash : Int32) (unit : UInt16) : Option Int32 := do
  let shifted ← shift? hash 5
  return shifted - hash + Int32.ofNat unit.toNat

/-! ### Units -/

theorem toNat_lt (c : Char) : c.toNat < 0x110000 := by
  have valid := c.valid
  simp only [UInt32.isValidChar, Nat.isValidChar] at valid
  change c.val.toNat < _
  omega

theorem units_cons (c : Char) (t : Text) : Text.units (c :: t) = Text.unitsOf c ++ t.units := List.flatMap_cons

theorem encodes_unitsOf {units : List UInt16} {t : Text} (c : Char) (encodes : Encodes units t) :
    Encodes (Text.unitsOf c ++ units) (c :: t) := by
  have bound := toNat_lt c
  by_cases basic : c.toNat < 0x10000
  · rw [Text.unitsOf, if_pos basic]
    exact .one (UInt16.toNat_ofNat_of_lt' basic) encodes
  · rw [Text.unitsOf, if_neg basic]
    have high : (0xD800 + (c.toNat - 0x10000) / 0x400).toUInt16.toNat = 0xD800 + (c.toNat - 0x10000) / 0x400 :=
      UInt16.toNat_ofNat_of_lt' (show _ < 0x10000 by omega)
    have low : (0xDC00 + (c.toNat - 0x10000) % 0x400).toUInt16.toNat = 0xDC00 + (c.toNat - 0x10000) % 0x400 :=
      UInt16.toNat_ofNat_of_lt' (show _ < 0x10000 by omega)
    exact .two (by omega) (by omega) (by omega) (by omega) (by omega) encodes

theorem encodes_units (t : Text) : Encodes t.units t := by
  induction t with
  | nil => exact .nil
  | cons c t ih =>
    rw [units_cons]
    exact encodes_unitsOf c ih

theorem Encodes.eq_units {units : List UInt16} {t : Text} (encodes : Encodes units t) : units = t.units := by
  induction encodes with
  | nil => rfl
  | @one unit c units t same _ ih =>
    have basic : c.toNat < 0x10000 := same ▸ unit.toNat_lt
    rw [units_cons, ← ih, Text.unitsOf, if_pos basic, ← same]
    simp
  | @two high low c units t highLeast highMost lowLeast lowMost same _ ih =>
    have beyond : ¬ c.toNat < 0x10000 := by omega
    have first : 0xD800 + (c.toNat - 0x10000) / 0x400 = high.toNat := by omega
    have second : 0xDC00 + (c.toNat - 0x10000) % 0x400 = low.toNat := by omega
    rw [units_cons, ← ih, Text.unitsOf, if_neg beyond, first, second]
    simp

theorem encodes_iff (units : List UInt16) (t : Text) : Encodes units t ↔ units = t.units := by
  constructor
  · exact Encodes.eq_units
  · intro same
    rw [same]
    exact encodes_units t

theorem units_append (a b : Text) : (a ++ b).units = a.units ++ b.units := List.flatMap_append

/-! ### The value of units -/

def value (units : List UInt16) : Nat := units.foldl (fun sum unit => sum * 31 + unit.toNat) 0

theorem foldl_value (units : List UInt16) (start : Nat) :
    units.foldl (fun sum unit => sum * 31 + unit.toNat) start = start * 31 ^ units.length + value units := by
  induction units generalizing start with
  | nil => simp [value]
  | cons unit units ih =>
    rw [value, List.foldl_cons, List.foldl_cons, ih, ih (0 * 31 + unit.toNat), List.length_cons, pow_succ]
    ring

theorem value_append (front back : List UInt16) :
    value (front ++ back) = value front * 31 ^ back.length + value back := by
  rw [value, List.foldl_append, foldl_value, ← value]

theorem value_eq_polynomial (units : List UInt16) : value units = polynomial units := by
  induction units with
  | nil => rfl
  | cons unit units ih =>
    have lower : ∀ i ∈ Finset.range units.length,
        ((unit :: units).getD (i + 1) 0).toNat * 31 ^ (units.length + 1 - 1 - (i + 1)) =
          (units.getD i 0).toNat * 31 ^ (units.length - 1 - i) := by
      intro i _
      have weight : units.length + 1 - 1 - (i + 1) = units.length - 1 - i := by omega
      rw [weight, List.getD_cons_succ]
    calc value (unit :: units)
      _ = unit.toNat * 31 ^ units.length + value units := by
        rw [value, List.foldl_cons, foldl_value, Nat.zero_mul, Nat.zero_add]
      _ = polynomial units + unit.toNat * 31 ^ units.length := by rw [ih, Nat.add_comm]
      _ = polynomial (unit :: units) := by
        rw [polynomial, polynomial, List.length_cons, Finset.sum_range_succ', Finset.sum_congr rfl lower]
        simp

/-! ### The hash -/

theorem contentHash_eq (t : Text) : contentHash t = Int32.ofNat (value t.units) := by
  apply List.foldl_hom Int32.ofNat
  intro sum unit
  rw [Int32.ofNat_add, Int32.ofNat_mul]
  rfl

theorem shift_sub (hash : Int32) : hash <<< 5 - hash = hash * 31 := by
  have amount : (Int32.toBitVec 5).smod 32 = 5 := by decide
  apply Int32.toBitVec_inj.mp
  rw [Int32.toBitVec_sub, Int32.toBitVec_mul, Int32.toBitVec_shiftLeft, amount]
  apply BitVec.eq_of_toNat_eq
  rw [BitVec.toNat_sub, BitVec.toNat_mul, BitVec.shiftLeft_eq', BitVec.toNat_shiftLeft, Nat.shiftLeft_eq]
  simp only [BitVec.ofNat_eq_ofNat, BitVec.toNat_ofNat, Int32.toBitVec_ofNat, Nat.reducePow, Nat.reduceMod]
  omega

theorem step?_eq (hash : Int32) (unit : UInt16) : step? hash unit = pure (hash * 31 + Int32.ofNat unit.toNat) := by
  have inside : (0 : Int32) ≤ 5 ∧ (5 : Int32) < 32 := by decide
  rw [step?, shift?, if_pos inside, ← shift_sub hash]
  rfl

theorem foldlM_step? (t : Text) : t.units.foldlM step? 0 = some (contentHash t) := by
  rw [funext fun hash => funext (step?_eq hash), List.foldlM_pure]
  rfl

theorem contentHash_modEq (t : Text) : (contentHash t).toInt ≡ value t.units [ZMOD modulus] := by
  rw [contentHash_eq, Int32.toInt_ofNat']
  exact Int.bmod_emod

theorem contentHash_append (a b : Text) :
    contentHash (a ++ b) = contentHash a * Int32.ofNat (31 ^ b.units.length) + contentHash b := by
  rw [contentHash_eq, contentHash_eq, contentHash_eq, units_append, value_append, Int32.ofNat_add, Int32.ofNat_mul]

theorem contentHash_append_modEq (a b : Text) :
    (contentHash (a ++ b)).toInt ≡ (contentHash a).toInt * 31 ^ b.units.length + (contentHash b).toInt
      [ZMOD modulus] := by
  calc (contentHash (a ++ b)).toInt
    _ ≡ value (a ++ b).units [ZMOD modulus] := contentHash_modEq (a ++ b)
    _ = (value a.units : Int) * 31 ^ b.units.length + value b.units := by
      rw [units_append, value_append]
      push_cast
      rfl
    _ ≡ (contentHash a).toInt * 31 ^ b.units.length + (contentHash b).toInt [ZMOD modulus] :=
      ((contentHash_modEq a).symm.mul_right _).add (contentHash_modEq b).symm

/-- The hash is the signed 32-bit number that has the remainder of the units' polynomial of base 31, and a step by
shift and subtraction gets there without a trap. A text behind another moves its hash by a power of 31; so texts of
one length with one hash collide between any two texts. -/
theorem contentHash_polynomial (t a b : Text) :
    (∀ units : List UInt16, Encodes units t ↔ units = t.units) ∧
    t.units.foldlM step? 0 = some (contentHash t) ∧
    (contentHash t).toInt ≡ polynomial t.units [ZMOD modulus] ∧
    -2147483648 ≤ (contentHash t).toInt ∧ (contentHash t).toInt < 2147483648 ∧
    (contentHash (a ++ b)).toInt ≡ (contentHash a).toInt * 31 ^ b.units.length + (contentHash b).toInt
      [ZMOD modulus] ∧
    (a.units.length = b.units.length → contentHash a = contentHash b →
      ∀ before after : Text, contentHash (before ++ a ++ after) = contentHash (before ++ b ++ after)) := by
  refine ⟨fun units => encodes_iff units t, foldlM_step? t, ?_, Int32.le_toInt _, Int32.toInt_lt _,
    contentHash_append_modEq a b, ?_⟩
  · rw [← value_eq_polynomial]
    exact contentHash_modEq t
  · intro sameLength sameHash before after
    rw [contentHash_append, contentHash_append before, contentHash_append (before ++ b), contentHash_append before,
      sameLength, sameHash]

/-- Two texts of two units that collide, also behind a character that is a pair of surrogates. -/
theorem contentHash_polynomial_collision :
    Encodes [0xD83D, 0xDE00] ['😀'] ∧ contentHash ['A', 'a'] = 2112 ∧ contentHash ['B', 'B'] = 2112 ∧
    contentHash ['😀', 'A', 'a', 'b'] = contentHash ['😀', 'B', 'B', 'b'] := by
  have ⟨encoded, _, _, _, _, _, collide⟩ := contentHash_polynomial ['😀'] ['A', 'a'] ['B', 'B']
  exact ⟨(encoded _).mpr (by decide), by decide, by decide, collide (by decide) (by decide) ['😀'] ['b']⟩

end TagCalls.Style
