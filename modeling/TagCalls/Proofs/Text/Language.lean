import Mathlib.Data.List.Forall2
import TagCalls.Proofs.Text.Leftmost

/-!
Patterns that read a language exactly: at the head of a text they read each of its words, whatever follows it,
and nothing else. Then no word begins another one, a text has one cut into words, the occurrences of the pattern
are the words of this cut, and its first occurrence is the word that begins earliest.
-/
namespace TagCalls

variable {α : Type} {language : Text → Prop}

def Spelled (spells : Text → α → Prop) (word : Text) : Prop := ∃ value, spells word value

/-- The word of a language that begins earliest in a text, with what stands before and behind it. It is the only
one that begins there. -/
structure Earliest (language : Text → Prop) (t before word after : Text) : Prop where
  split : t = before ++ word ++ after
  spelled : language word
  first : ∀ front other back, t = front ++ other ++ back → language other →
    before.bytes < front.bytes ∨ front = before ∧ other = word

theorem earliest_head (free : PrefixFree language) {word : Text} (spelled : language word) (rest : Text) :
    Earliest language (word ++ rest) [] word rest where
  split := rfl
  spelled := spelled
  first front other back split again := by
    cases front with
    | nil =>
      have same := (free.eq_of_append spelled again split).1
      exact .inr ⟨rfl, same.symm⟩
    | cons c front => exact .inl (Nat.lt_of_lt_of_le c.utf8Size_pos (Nat.le_add_right _ _))

theorem Earliest.cons {c : Char} {t before word after : Text} (quiet : ∀ word, word <+: c :: t → ¬ language word)
    (earliest : Earliest language t before word after) :
    Earliest language (c :: t) (c :: before) word after where
  split := congrArg (c :: ·) earliest.split
  spelled := earliest.spelled
  first front other back split again := by
    cases front with
    | nil => exact absurd again (quiet other ⟨back, split.symm⟩)
    | cons d front =>
      cases split
      rcases earliest.first front other back rfl again with later | ⟨rfl, rfl⟩
      · exact .inl (Nat.add_lt_add_left later _)
      · exact .inr ⟨rfl, rfl⟩

namespace Pattern

/-- The pattern reads the words of a language as their values, and nothing else. -/
def Exact (p : Pattern α) (spells : Text → α → Prop) : Prop :=
  ∀ t value rest, p.read? t = some (value, rest) ↔ ∃ word, t = word ++ rest ∧ spells word value

variable {p : Pattern α} {spells : Text → α → Prop} (reads : p.Exact spells)
include reads

theorem Exact.read?_append {word : Text} {value : α} (spelled : spells word value) (rest : Text) :
    p.read? (word ++ rest) = some (value, rest) :=
  (reads _ _ _).mpr ⟨word, rfl, spelled⟩

theorem Exact.rightUnique : Relator.RightUnique spells := by
  intro word value other one two
  have same := reads.read?_append one []
  rw [reads.read?_append two []] at same
  cases same
  rfl

theorem Exact.recognizes : p.Recognizes (Spelled spells) spells where
  sound t value rest read := by
    rcases (reads t value rest).mp read with ⟨word, split, spelled⟩
    exact ⟨word, split, ⟨value, spelled⟩, spelled⟩
  complete word rest spelled := by
    rcases spelled with ⟨value, spelled⟩
    rw [reads.read?_append spelled rest]
    exact Option.some_ne_none _

theorem Exact.prefixFree : PrefixFree (Spelled spells) where
  nonempty := reads.recognizes.nonempty
  alone word other one two begins := by
    rcases one with ⟨value, one⟩
    rcases two with ⟨_, two⟩
    rcases begins with ⟨rest, rfl⟩
    -- The longer word is read to its end, and the shorter one leaves `rest`.
    have whole := reads.read?_append two []
    rw [List.append_nil, reads.read?_append one rest] at whole
    cases whole
    rw [List.append_nil]

/-! ### All occurrences -/

theorem Exact.cut_occurrences (t : Text) :
    ∃ cut, Cut (Spelled spells) t cut ∧ List.Forall₂ spells (Segment.values cut) (p.occurrences t) := by
  induction t using segments.induct p with
  | case1 =>
    rw [occurrences_nil]
    exact ⟨[], .done, .nil⟩
  | case2 c t value rest read ih =>
    rcases ih with ⟨cut, walk, values⟩
    rcases (reads _ _ _).mp read with ⟨word, split, spelled⟩
    rw [occurrences_of_read read, split]
    exact ⟨.found word :: cut, .found ⟨value, spelled⟩ walk, .cons spelled values⟩
  | case3 c t read ih =>
    rcases ih with ⟨cut, walk, values⟩
    have quiet := (reads.recognizes.read?_eq_none_iff _).mp read
    rw [occurrences_of_none read]
    exact ⟨.plain c :: cut, .plain quiet walk, values⟩

theorem Exact.unique_cut (t : Text) :
    ∃ cut, Cut (Spelled spells) t cut ∧ (∀ other, Cut (Spelled spells) t other → other = cut) ∧
      ∀ values, List.Forall₂ spells (Segment.values cut) values ↔ values = p.occurrences t := by
  rcases reads.cut_occurrences t with ⟨cut, walk, known⟩
  refine ⟨cut, walk, ?_, ?_⟩
  · intro other again
    exact again.unique reads.prefixFree walk
  · intro values
    constructor
    · intro others
      exact reads.rightUnique.forall₂ others known
    · intro same
      exact same ▸ known

theorem Exact.spelled_of_mem {t : Text} {value : α} (member : value ∈ p.occurrences t) :
    ∃ word, word <:+: t ∧ spells word value := by
  induction t using segments.induct p with
  | case1 =>
    rw [occurrences_nil] at member
    cases member
  | case2 c t first rest read ih =>
    rcases (reads _ _ _).mp read with ⟨word, split, spelled⟩
    rw [occurrences_of_read read] at member
    rw [split]
    rcases List.mem_cons.mp member with rfl | later
    · exact ⟨word, (List.prefix_append word rest).isInfix, spelled⟩
    · rcases ih later with ⟨other, inside, known⟩
      exact ⟨other, inside.trans (List.suffix_append word rest).isInfix, known⟩
  | case3 c t read ih =>
    rw [occurrences_of_none read] at member
    rcases ih member with ⟨word, inside, known⟩
    exact ⟨word, inside.trans (List.suffix_cons c t).isInfix, known⟩

/-! ### The first occurrence -/

omit reads in
theorem head?_occurrences (t : Text) :
    (p.occurrences t).head? = (p.first? t).map fun (_, value, _) => value := by
  induction t with
  | nil => rw [occurrences_nil, first?, List.head?_nil, Option.map_none]
  | cons c t ih =>
    cases read : p.read? (c :: t) with
    | some parts =>
      rw [occurrences_of_read read, first?, read]
      rfl
    | none =>
      rw [occurrences_of_none read, first?, read, ih, Option.map_map]
      rfl

theorem Exact.first?_eq_none_iff (t : Text) :
    p.first? t = none ↔ ∀ word, word <:+: t → ¬ Spelled spells word := by
  rw [← reads.recognizes.occurrences_eq_nil_iff, ← List.head?_eq_none_iff, head?_occurrences,
    Option.map_eq_none_iff]

theorem Exact.earliest_of_first? {t gap rest : Text} {value : α} (found : p.first? t = some (gap, value, rest)) :
    ∃ word, spells word value ∧ Earliest (Spelled spells) t gap word rest := by
  induction t generalizing gap with
  | nil => cases found
  | cons c t ih =>
    cases read : p.read? (c :: t) with
    | some parts =>
      rcases parts with ⟨first, behind⟩
      rw [first?, read] at found
      cases found
      rcases (reads _ _ _).mp read with ⟨word, split, spelled⟩
      rw [split]
      exact ⟨word, spelled, earliest_head reads.prefixFree ⟨value, spelled⟩ rest⟩
    | none =>
      rw [first?, read] at found
      rcases Option.map_eq_some_iff.mp found with ⟨⟨before, _, _⟩, later, same⟩
      cases same
      rcases ih later with ⟨word, spelled, earliest⟩
      exact ⟨word, spelled, earliest.cons ((reads.recognizes.read?_eq_none_iff _).mp read)⟩

end Pattern
end TagCalls
