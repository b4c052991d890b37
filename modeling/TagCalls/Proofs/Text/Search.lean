import TagCalls.Text.Fold

/-!
Search for a word in any letter case. The searches of `Text` find exactly what stands in the folded
text, and the first or the last of it. The words looked for begin with a character that does not come
again in them, so that two occurrences never overlap and none reaches across the beginning of another.
-/
namespace TagCalls.Text

@[simp] theorem fold_nil : fold [] = [] := rfl

@[simp] theorem fold_cons (c : Char) (t : Text) : fold (c :: t) = c.toLower :: fold t := rfl

@[simp] theorem fold_append (s t : Text) : fold (s ++ t) = fold s ++ fold t := List.map_append

@[simp] theorem length_fold (t : Text) : (fold t).length = t.length := List.length_map _

theorem utf8Size_toLower (c : Char) : c.toLower.utf8Size = c.utf8Size := by
  unfold Char.toLower
  split
  · next upper =>
    have low : c.val ≤ 127 := UInt32.le_trans upper.2 (by decide)
    have lowered : c.val + ('a'.val - 'A'.val) ≤ 127 := by
      have bound := UInt32.le_iff_toNat_le.mp upper.2
      rw [UInt32.le_iff_toNat_le, UInt32.toNat_add]
      have top : 'Z'.val.toNat = 90 := rfl
      have gap : ('a'.val - 'A'.val).toNat = 32 := rfl
      have limit : (127 : UInt32).toNat = 127 := rfl
      omega
    rw [Char.utf8Size_eq_one_iff.mpr low, Char.utf8Size_eq_one_iff.mpr lowered]
  · rfl

theorem bytes_fold (t : Text) : (fold t).bytes = t.bytes := by
  induction t with
  | nil => rfl
  | cons c t ih => rw [fold_cons, bytes, bytes, ih, utf8Size_toLower]

/-! ### Parts of a text that holds a given character -/

section
variable {x : Char} {word a b : Text}

theorem infix_of_absent (absent : x ∉ word) (inside : word <:+: a ++ x :: b) :
    word <:+: a ∨ word <:+: b := by
  rcases List.infix_append_iff.mp inside with left | right | ⟨front, back, rfl, left, right⟩
  · exact .inl left
  · rcases List.infix_cons_iff.mp right with here | later
    · cases word with
      | nil => exact .inl List.nil_infix
      | cons c word =>
        rcases List.cons_prefix_cons.mp here with ⟨rfl, _⟩
        exact absurd List.mem_cons_self absent
    · exact .inr later
  · cases back with
    | nil =>
      rw [List.append_nil]
      exact .inl left.isInfix
    | cons c back =>
      rcases List.cons_prefix_cons.mp right with ⟨rfl, _⟩
      exact absurd (List.mem_append_right front List.mem_cons_self) absent

theorem prefix_of_lone (lone : x ∉ word) (nonempty : a ≠ []) (begins : x :: word <+: a ++ x :: b) :
    x :: word <+: a := by
  cases a with
  | nil => exact absurd rfl nonempty
  | cons c a =>
    rcases List.cons_prefix_cons.mp begins with ⟨rfl, tail⟩
    apply List.cons_prefix_cons.mpr
    refine ⟨rfl, ?_⟩
    rcases List.prefix_or_prefix_of_prefix tail (List.prefix_append a (x :: b)) with short | long
    · exact short
    · rcases long with ⟨more, rfl⟩
      cases more with
      | nil => simp
      | cons d more =>
        rcases List.cons_prefix_cons.mp ((List.prefix_append_right_inj a).mp tail) with ⟨rfl, _⟩
        exact absurd (List.mem_append_right a List.mem_cons_self) lone

end

/-! ### The first occurrence -/

theorem takeFolded?_append {word taken : Text} (folded : fold taken = word) (rest : Text) :
    takeFolded? word (taken ++ rest) = some (taken, rest) := by
  subst folded
  induction taken with
  | nil => rfl
  | cons c taken ih => simp [takeFolded?, ih]

theorem prefix_fold {word t : Text} (begins : word <+: fold t) :
    ∃ taken rest, t = taken ++ rest ∧ fold taken = word := by
  rcases begins with ⟨rest, split⟩
  rcases List.append_eq_map_iff.mp split with ⟨taken, behind, cut, folded, _⟩
  exact ⟨taken, behind, cut, folded⟩

theorem prefix_fold_append {word taken : Text} (folded : fold taken = word) (rest : Text) :
    word <+: fold (taken ++ rest) := by
  rw [fold_append, folded]
  exact List.prefix_append _ _

theorem takeFolded?_eq_none_iff {word t : Text} : takeFolded? word t = none ↔ ¬ word <+: fold t := by
  constructor
  · intro absent begins
    rcases prefix_fold begins with ⟨taken, rest, rfl, folded⟩
    rw [takeFolded?_append folded] at absent
    cases absent
  · intro absent
    cases found : takeFolded? word t with
    | none => rfl
    | some parts =>
      rcases takeFolded?_eq_some found with ⟨rfl, folded⟩
      rw [fold_append, folded] at absent
      exact absurd (List.prefix_append _ _) absent

theorem splitFolded?_cons {word t : Text} {c : Char} (absent : ¬ word <+: fold (c :: t)) :
    splitFolded? word (c :: t) =
      (splitFolded? word t).map fun (gap, taken, rest) => (c :: gap, taken, rest) := by
  rw [splitFolded?, takeFolded?_eq_none_iff.mpr absent]

theorem splitFolded?_head {word taken : Text} (folded : fold taken = word) (rest : Text) :
    splitFolded? word (taken ++ rest) = some ([], taken, rest) := by
  have found := takeFolded?_append folded rest
  cases split : taken ++ rest with
  | nil =>
    rw [split] at found
    rw [splitFolded?, found]
    rfl
  | cons c t =>
    rw [split] at found
    rw [splitFolded?, found]

theorem splitFolded?_eq_none_iff {word t : Text} :
    splitFolded? word t = none ↔ ¬ word <:+: fold t := by
  induction t with
  | nil =>
    rw [splitFolded?, Option.map_eq_none_iff, takeFolded?_eq_none_iff, fold_nil, List.infix_nil,
      List.prefix_nil]
  | cons c t ih =>
    by_cases here : word <+: fold (c :: t)
    · rcases prefix_fold here with ⟨taken, rest, cut, folded⟩
      have inside : word <:+: fold (c :: t) := here.isInfix
      rw [cut] at inside ⊢
      rw [splitFolded?_head folded, eq_true inside]
      simp
    · rw [splitFolded?_cons here, Option.map_eq_none_iff, ih, fold_cons, List.infix_cons_iff]
      rw [fold_cons] at here
      simp [here]

theorem containsFolded_iff {word t : Text} : containsFolded word t = true ↔ word <:+: fold t := by
  rw [containsFolded, Option.isSome_iff_ne_none, ne_eq, splitFolded?_eq_none_iff, Classical.not_not]

theorem not_infix_fold {word t : Text} (checked : containsFolded word t = false) : ¬ word <:+: fold t := by
  rw [← containsFolded_iff, checked]
  exact Bool.false_ne_true

theorem splitFolded?_gap {word t gap taken rest : Text}
    (found : splitFolded? word t = some (gap, taken, rest)) (nonempty : word ≠ []) :
    ¬ word <:+: fold gap := by
  induction t generalizing gap with
  | nil =>
    rcases splitFolded?_eq_some found with ⟨split, folded⟩
    rcases List.append_eq_nil_iff.mp split.symm with ⟨front, _⟩
    rcases List.append_eq_nil_iff.mp front with ⟨_, rfl⟩
    exact absurd folded.symm nonempty
  | cons c t ih =>
    by_cases here : word <+: fold (c :: t)
    · rcases prefix_fold here with ⟨head, behind, cut, folded⟩
      rw [cut, splitFolded?_head folded] at found
      cases found
      rw [fold_nil, List.infix_nil]
      exact nonempty
    · rw [splitFolded?_cons here] at found
      rcases Option.map_eq_some_iff.mp found with ⟨⟨first, second, third⟩, later, same⟩
      cases same
      intro inside
      rcases List.infix_cons_iff.mp inside with begins | behind
      · rcases splitFolded?_eq_some later with ⟨rfl, _⟩
        apply here
        rw [List.append_assoc, ← List.cons_append, fold_append]
        exact begins.trans (List.prefix_append _ _)
      · exact ih later behind

theorem splitFolded?_append {x : Char} {word gap taken : Text} (lone : x ∉ word)
    (absent : ¬ x :: word <:+: fold gap) (folded : fold taken = x :: word) (rest : Text) :
    splitFolded? (x :: word) (gap ++ (taken ++ rest)) = some (gap, taken, rest) := by
  induction gap with
  | nil => exact splitFolded?_head folded rest
  | cons c gap ih =>
    have here : ¬ x :: word <+: fold (c :: (gap ++ (taken ++ rest))) := by
      intro begins
      rw [← List.cons_append, fold_append, fold_append, folded, List.cons_append] at begins
      exact absent (prefix_of_lone lone (by simp) begins).isInfix
    rw [List.cons_append, splitFolded?_cons here, ih (fun inside => absent (List.infix_cons inside))]
    rfl

/-! ### The last occurrence -/

theorem splitLastFolded?_eq_none_iff {word t : Text} :
    splitLastFolded? word t = none ↔ ¬ word <:+: fold t := by
  induction t with
  | nil =>
    have here : takeFolded? word [] = none ↔ ¬ word <+: fold [] := takeFolded?_eq_none_iff
    rw [fold_nil, List.prefix_nil] at here
    rw [splitLastFolded?, fold_nil, List.infix_nil, ← here]
    cases takeFolded? word [] <;> simp
  | cons c t ih =>
    have here : takeFolded? word (c :: t) = none ↔ ¬ word <+: fold (c :: t) := takeFolded?_eq_none_iff
    rw [splitLastFolded?, fold_cons, List.infix_cons_iff]
    rw [fold_cons] at here
    cases later : splitLastFolded? word t with
    | some parts =>
      have inside : word <:+: fold t := by
        apply Classical.byContradiction
        intro absent
        rw [ih.mpr absent] at later
        cases later
      simp [inside]
    | none =>
      have absent := ih.mp later
      cases first : takeFolded? word (c :: t) with
      | none => simp [absent, here.mp first]
      | some parts =>
        have begins : word <+: c.toLower :: fold t := by
          apply Classical.byContradiction
          intro elsewhere
          rw [here.mpr elsewhere] at first
          cases first
        simp [begins]

theorem splitLastFolded?_eq_some_iff {word t before after : Text} (nonempty : word ≠ []) :
    splitLastFolded? word t = some (before, after) ↔
      t = before ++ after ∧ word <+: fold after ∧ ¬ word <:+: fold after.tail := by
  induction t generalizing before with
  | nil =>
    have none : splitLastFolded? word [] = none := by
      rw [splitLastFolded?_eq_none_iff, fold_nil, List.infix_nil]
      exact nonempty
    rw [none]
    constructor
    · intro found
      cases found
    · intro shape
      rcases shape with ⟨split, begins, _⟩
      rcases List.append_eq_nil_iff.mp split.symm with ⟨_, rfl⟩
      exact absurd (List.prefix_nil.mp begins) nonempty
  | cons c t ih =>
    rw [splitLastFolded?]
    cases later : splitLastFolded? word t with
    | some parts =>
      rcases parts with ⟨front, back⟩
      constructor
      · intro found
        cases found
        rcases ih.mp later with ⟨rfl, begins, last⟩
        exact ⟨rfl, begins, last⟩
      · intro shape
        rcases shape with ⟨split, begins, last⟩
        cases before with
        | nil =>
          rw [List.nil_append] at split
          subst split
          rw [List.tail_cons, ← splitLastFolded?_eq_none_iff, later] at last
          cases last
        | cons d before =>
          rcases List.cons.inj split with ⟨rfl, rest⟩
          rw [ih.mpr ⟨rest, begins, last⟩] at later
          cases later
          rfl
    | none =>
      have absent := splitLastFolded?_eq_none_iff.mp later
      constructor
      · intro found
        dsimp only at found
        split at found
        · next here =>
          cases found
          refine ⟨rfl, ?_, absent⟩
          apply Classical.byContradiction
          intro elsewhere
          rw [takeFolded?_eq_none_iff.mpr elsewhere] at here
          cases here
        · cases found
      · intro shape
        rcases shape with ⟨split, begins, last⟩
        cases before with
        | nil =>
          rw [List.nil_append] at split
          subst split
          have here : (takeFolded? word (c :: t)).isSome := by
            rw [Option.isSome_iff_ne_none, ne_eq, takeFolded?_eq_none_iff]
            exact fun elsewhere => elsewhere begins
          simp [here]
        | cons d before =>
          rcases List.cons.inj split with ⟨rfl, rest⟩
          apply absurd _ absent
          have cut : t = before ++ after := rest
          rw [cut, fold_append]
          exact begins.isInfix.trans (List.suffix_append _ _).isInfix

end TagCalls.Text
