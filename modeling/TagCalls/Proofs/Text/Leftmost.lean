import TagCalls.Proofs.Text.Segment

/-!
Leftmost substitution told by languages. A text is cut from the left into words of a language and the
characters between them, at which no word begins. Where no word begins another one there is only one such
cut, and a pattern that reads exactly the words of the language replaces them along this cut.
-/
namespace TagCalls

variable {α : Type} {language : Text → Prop}

/-- A text cut into words of a language and single characters. A character stands alone only where no word
begins, so that the runs of such characters are the gaps between the words. -/
inductive Cut (language : Text → Prop) : Text → List (Segment Text) → Prop
  | done : Cut language [] []
  | plain {c : Char} {t : Text} {cut : List (Segment Text)} :
      (∀ word, word <+: c :: t → ¬ language word) → Cut language t cut →
      Cut language (c :: t) (.plain c :: cut)
  | found {word rest : Text} {cut : List (Segment Text)} : language word → Cut language rest cut →
      Cut language (word ++ rest) (.found word :: cut)

/-- A cut text with each of its words replaced by one that it may become. -/
inductive Substitutes (becomes : Text → Text → Prop) : List (Segment Text) → Text → Prop
  | done : Substitutes becomes [] []
  | plain {c : Char} {cut : List (Segment Text)} {out : Text} : Substitutes becomes cut out →
      Substitutes becomes (.plain c :: cut) (c :: out)
  | found {word new : Text} {cut : List (Segment Text)} {out : Text} : becomes word new →
      Substitutes becomes cut out → Substitutes becomes (.found word :: cut) (new ++ out)

structure PrefixFree (language : Text → Prop) : Prop where
  nonempty : ∀ word, language word → word ≠ []
  alone : ∀ word other, language word → language other → word <+: other → word = other

/-! ### One cut -/

theorem PrefixFree.eq_of_append (free : PrefixFree language) {word other rest behind : Text}
    (one : language word) (two : language other) (same : word ++ rest = other ++ behind) :
    word = other ∧ rest = behind := by
  have first : word <+: other ++ behind := ⟨rest, same⟩
  have equal : word = other := by
    rcases List.prefix_or_prefix_of_prefix first (List.prefix_append other behind) with shorter | longer
    · exact free.alone word other one two shorter
    · exact (free.alone other word two one longer).symm
  subst equal
  exact ⟨rfl, List.append_cancel_left same⟩

theorem Cut.unique (free : PrefixFree language) {t : Text} {one two : List (Segment Text)}
    (first : Cut language t one) (second : Cut language t two) : one = two := by
  induction first generalizing two with
  | done =>
    generalize empty : ([] : Text) = t at second
    cases second with
    | done => rfl
    | plain _ _ => cases empty
    | found spelled _ => exact absurd (List.append_eq_nil_iff.mp empty.symm).1 (free.nonempty _ spelled)
  | @plain c t cut quiet _ ih =>
    generalize whole : c :: t = text at second
    cases second with
    | done => cases whole
    | plain _ behind =>
      cases whole
      rw [ih behind]
    | @found word rest _ spelled _ =>
      rw [whole] at quiet
      exact absurd spelled (quiet word (List.prefix_append word rest))
  | @found word rest cut spelled _ ih =>
    generalize whole : word ++ rest = text at second
    cases second with
    | done => exact absurd (List.append_eq_nil_iff.mp whole).1 (free.nonempty word spelled)
    | plain quiet _ => exact absurd spelled (quiet word ⟨rest, whole⟩)
    | found other behind =>
      rcases free.eq_of_append spelled other whole with ⟨rfl, rfl⟩
      rw [ih behind]

theorem Substitutes.mono {becomes other : Text → Text → Prop} {cut : List (Segment Text)} {out : Text}
    (weaker : ∀ word new, becomes word new → other word new) (substitutes : Substitutes becomes cut out) :
    Substitutes other cut out := by
  induction substitutes with
  | done => exact .done
  | plain _ ih => exact .plain ih
  | found replaced _ ih => exact .found (weaker _ _ replaced) ih

namespace Pattern

/-- The pattern reads at the head of a text exactly where a word of the language stands, and `reads` tells
which value it gives for the word. -/
structure Recognizes (p : Pattern α) (language : Text → Prop) (reads : Text → α → Prop) : Prop where
  sound : ∀ t value rest, p.read? t = some (value, rest) →
    ∃ word, t = word ++ rest ∧ language word ∧ reads word value
  complete : ∀ word rest, language word → p.read? (word ++ rest) ≠ none

section

variable {p : Pattern α} {reads : Text → α → Prop}

theorem Recognizes.read?_eq_none_iff (recognizes : p.Recognizes language reads) (t : Text) :
    p.read? t = none ↔ ∀ word, word <+: t → ¬ language word := by
  constructor
  · intro silent word begins spelled
    rcases begins with ⟨rest, rfl⟩
    exact recognizes.complete word rest spelled silent
  · intro quiet
    cases found : p.read? t with
    | none => rfl
    | some parts =>
      rcases parts with ⟨value, rest⟩
      rcases recognizes.sound t value rest found with ⟨word, rfl, spelled, _⟩
      exact absurd spelled (quiet word (List.prefix_append word rest))

theorem Recognizes.cut_replace (recognizes : p.Recognizes language reads) (write : α → Text) (t : Text) :
    ∃ cut, Cut language t cut ∧
      Substitutes (fun word new => ∃ value, reads word value ∧ new = write value) cut (p.replace write t) := by
  induction t using segments.induct p with
  | case1 =>
    rw [replace_nil]
    exact ⟨[], .done, .done⟩
  | case2 c t value rest read ih =>
    rcases ih with ⟨cut, walk, out⟩
    rcases recognizes.sound _ _ _ read with ⟨word, split, spelled, known⟩
    rw [replace_of_read write read, split]
    exact ⟨.found word :: cut, .found spelled walk, .found ⟨value, known, rfl⟩ out⟩
  | case3 c t read ih =>
    rcases ih with ⟨cut, walk, out⟩
    rw [replace_of_none write read]
    exact ⟨.plain c :: cut, .plain ((recognizes.read?_eq_none_iff _).mp read) walk, .plain out⟩

end
end Pattern

/-! ### Replacing once more -/

theorem Substitutes.prefix_of_absent {x : Char} {becomes : Text → Text → Prop} {t out : Text}
    {cut : List (Segment Text)} (single : ∀ word new, becomes word new → new = [x])
    (walk : Cut language t cut) (substitutes : Substitutes becomes cut out) (front : Text)
    (absent : x ∉ front) (begins : front <+: out) : front <+: t := by
  induction walk generalizing out front with
  | done =>
    cases substitutes
    exact begins
  | plain _ _ ih =>
    cases substitutes with
    | plain behind =>
      cases front with
      | nil => exact List.nil_prefix
      | cons d front =>
        rcases List.cons_prefix_cons.mp begins with ⟨rfl, later⟩
        have tail := ih behind front (List.not_mem_of_not_mem_cons absent) later
        exact List.cons_prefix_cons.mpr ⟨rfl, tail⟩
  | found _ _ _ =>
    cases substitutes with
    | found replaced _ =>
      cases front with
      | nil => exact List.nil_prefix
      | cons d front =>
        rw [single _ _ replaced] at begins
        rcases List.cons_prefix_cons.mp begins with ⟨rfl, _⟩
        exact absurd List.mem_cons_self absent

namespace Pattern

variable {p : Pattern α} {reads : Text → α → Prop}

theorem Recognizes.nonempty (recognizes : p.Recognizes language reads) (word : Text) (spelled : language word) :
    word ≠ [] := by
  intro empty
  subst empty
  cases found : p.read? [] with
  | none => exact recognizes.complete [] [] spelled found
  | some parts => exact absurd (p.shorter found) (Nat.not_lt_zero _)

theorem Recognizes.replace_substituted (recognizes : p.Recognizes language reads) (write : α → Text) {x : Char}
    (foreign : ∀ word, language word → x ∉ word) {becomes : Text → Text → Prop}
    (single : ∀ word new, becomes word new → new = [x]) {t out : Text} {cut : List (Segment Text)}
    (walk : Cut language t cut) (substitutes : Substitutes becomes cut out) : p.replace write out = out := by
  induction walk generalizing out with
  | done =>
    cases substitutes
    exact p.replace_nil write
  | @plain c t cut quiet walk ih =>
    cases substitutes with
    | @plain _ _ out behind =>
      have silent : p.read? (c :: out) = none := by
        apply (recognizes.read?_eq_none_iff _).mpr
        intro word begins spelled
        have before := Substitutes.prefix_of_absent single (.plain quiet walk) (.plain behind) word
          (foreign word spelled) begins
        exact quiet word before spelled
      rw [replace_of_none write silent, ih behind]
  | found _ _ ih =>
    cases substitutes with
    | @found _ _ _ out replaced behind =>
      have silent : p.read? (x :: out) = none := by
        apply (recognizes.read?_eq_none_iff _).mpr
        intro word begins spelled
        cases word with
        | nil => exact recognizes.nonempty [] spelled rfl
        | cons c word =>
          rcases List.cons_prefix_cons.mp begins with ⟨rfl, _⟩
          exact foreign _ spelled List.mem_cons_self
      rw [single _ _ replaced, List.singleton_append, replace_of_none write silent, ih behind]

theorem Recognizes.replace_replace (recognizes : p.Recognizes language reads) (write : α → Text) (x : Char)
    (foreign : ∀ word, language word → x ∉ word) (single : ∀ word value, reads word value → write value = [x])
    (t : Text) : p.replace write (p.replace write t) = p.replace write t := by
  rcases recognizes.cut_replace write t with ⟨cut, walk, substitutes⟩
  apply recognizes.replace_substituted write foreign _ walk substitutes
  intro word new replaced
  rcases replaced with ⟨value, known, rfl⟩
  exact single word value known

/-! ### Nothing to replace -/

theorem occurrences_eq_nil_iff (t : Text) : p.occurrences t = [] ↔ ∀ head, head <:+ t → p.read? head = none := by
  induction t with
  | nil =>
    have silent : p.read? [] = none := by
      cases found : p.read? [] with
      | none => rfl
      | some parts => exact absurd (p.shorter found) (Nat.not_lt_zero _)
    simp [occurrences_nil, silent]
  | cons c t ih =>
    constructor
    · intro empty head shorter
      cases read : p.read? (c :: t) with
      | some parts =>
        rw [occurrences_of_read read] at empty
        cases empty
      | none =>
        rw [occurrences_of_none read] at empty
        rcases List.suffix_cons_iff.mp shorter with rfl | later
        · exact read
        · exact ih.mp empty head later
    · intro silent
      rw [occurrences_of_none (silent (c :: t) (List.suffix_refl _))]
      exact ih.mpr fun head shorter => silent head (shorter.trans (List.suffix_cons c t))

theorem Recognizes.occurrences_eq_nil_iff (recognizes : p.Recognizes language reads) (t : Text) :
    p.occurrences t = [] ↔ ∀ word, word <:+: t → ¬ language word := by
  rw [Pattern.occurrences_eq_nil_iff]
  constructor
  · intro silent word inside
    rcases List.infix_iff_prefix_suffix.mp inside with ⟨head, begins, shorter⟩
    exact (recognizes.read?_eq_none_iff head).mp (silent head shorter) word begins
  · intro quiet head shorter
    apply (recognizes.read?_eq_none_iff head).mpr
    intro word begins
    exact quiet word (begins.isInfix.trans shorter.isInfix)

theorem count_replace (write : α → Text) (x : Char)
    (spends : ∀ t value rest, p.read? t = some (value, rest) →
      t.count x = (write value).count x + 1 + rest.count x) (t : Text) :
    (p.replace write t).count x + (p.occurrences t).length = t.count x := by
  induction t using segments.induct p with
  | case1 => rw [replace_nil, occurrences_nil, List.length_nil, Nat.add_zero]
  | case2 c t value rest read ih =>
    rw [replace_of_read write read, occurrences_of_read read, List.count_append, List.length_cons,
      spends _ _ _ read]
    omega
  | case3 c t read ih =>
    rw [replace_of_none write read, occurrences_of_none read, List.count_cons, List.count_cons]
    omega

theorem replace_of_no_occurrence (write : α → Text) (t : Text) (empty : p.occurrences t = []) :
    p.replace write t = t := by
  induction t with
  | nil => exact p.replace_nil write
  | cons c t ih =>
    cases read : p.read? (c :: t) with
    | some parts =>
      rw [occurrences_of_read read] at empty
      cases empty
    | none =>
      rw [occurrences_of_none read] at empty
      rw [replace_of_none write read, ih empty]

end Pattern
end TagCalls
