import TagCalls.Proofs.Transpile.Comment

/-!
The parts of a configuration text: strings, comments and single characters, one behind the other. Where a part
ends is told by the text alone, so every text has exactly one cut into parts: `splits_exists` and `splits_unique`.
-/
namespace TagCalls.Config

open Transpiled (ending exact_ending first?_ending_of_absent)

inductive Part where
  | string (text : Text)
  | lineComment (text : Text)
  | blockComment (text : Text)
  | single (c : Char)
  deriving DecidableEq, Repr

namespace Part

def text : Part → Text
  | .string text | .lineComment text | .blockComment text => text
  | .single c => [c]

def isComment : Part → Bool
  | .lineComment _ | .blockComment _ => true
  | .string _ | .single _ => false

def join (parts : List Part) : Text := parts.flatMap text

def kept (parts : List Part) : List Part := parts.filter fun part => !part.isComment

end Part

/-- What can stand between the quotes of a string: a backslash takes the next character with it. -/
inductive Inside : Text → Prop
  | nil : Inside []
  | plain {c : Char} {t : Text} : c ≠ '"' → c ≠ '\\' → Inside t → Inside (c :: t)
  | escaped {c : Char} {t : Text} : Inside t → Inside ('\\' :: c :: t)

/-- No quote of the text closes a string that is open before it. -/
def StaysOpen (t : Text) : Prop := ∀ inside behind, Inside inside → t ≠ inside ++ '"' :: behind

/-- How a string goes on behind its first quote: to the first quote that no backslash takes, or to the end of the
text if there is none. -/
inductive StringEnds : Text → Text → Prop
  | closed {inside rest : Text} : Inside inside → StringEnds (inside ++ ['"']) rest
  | unclosed {t : Text} : StaysOpen t → StringEnds t []

/-- How a comment goes on behind `//`: up to the next newline, which is not in it, or to the end. -/
structure LineEnds (line rest : Text) : Prop where
  oneLine : '\n' ∉ line
  stops : ∀ c ∈ rest.head?, c = '\n'

/-- How a comment goes on behind `/*`: to the first `*/`, or to the end if there is none. -/
inductive BlockEnds : Text → Text → Prop
  | closed {inside rest : Text} : ¬ ending <:+: inside → BlockEnds (inside ++ ending) rest
  | unclosed {t : Text} : ¬ ending <:+: t → BlockEnds t []

def OpensComment (t : Text) : Prop := ['/', '/'] <+: t ∨ ['/', '*'] <+: t

inductive Stands : Part → Text → Prop
  | string {t rest : Text} : StringEnds t rest → Stands (.string ('"' :: t)) rest
  | lineComment {t rest : Text} : LineEnds t rest → Stands (.lineComment ('/' :: '/' :: t)) rest
  | blockComment {t rest : Text} : BlockEnds t rest → Stands (.blockComment ('/' :: '*' :: t)) rest
  | single {c : Char} {rest : Text} : c ≠ '"' → ¬ OpensComment (c :: rest) → Stands (.single c) rest

inductive Splits : Text → List Part → Prop
  | nil : Splits [] []
  | cons {part : Part} {rest : Text} {parts : List Part} : Stands part rest → Splits rest parts →
      Splits (part.text ++ rest) (part :: parts)

structure Determined (cut : Text → Text → Prop) : Prop where
  total : ∀ whole, ∃ t rest, t ++ rest = whole ∧ cut t rest
  unique : ∀ t rest other behind, cut t rest → cut other behind → t ++ rest = other ++ behind →
    t = other ∧ rest = behind

theorem Determined.of_head {cut : Text → Text → Prop} (head : Text → Text)
    (total : ∀ whole, ∃ t rest, t ++ rest = whole ∧ cut t rest)
    (told : ∀ t rest, cut t rest → head (t ++ rest) = t) : Determined cut where
  total := total
  unique t rest other behind first second split := by
    have same : t = other := by
      calc
        t = head (t ++ rest) := (told t rest first).symm
        _ = head (other ++ behind) := by rw [split]
        _ = other := told other behind second
    rw [same] at split
    exact ⟨same, List.append_cancel_left split⟩

/-! ### Where a part ends -/

theorem inside_append {one two rest behind : Text} (first : Inside one) (second : Inside two)
    (split : one ++ '"' :: rest = two ++ behind) : ∃ gap, Inside gap ∧ one = two ++ gap := by
  induction second generalizing one with
  | nil => exact ⟨one, first, rfl⟩
  | plain noQuote noSlash _ ih =>
    cases first with
    | nil => exact absurd (List.cons.inj split).1.symm noQuote
    | plain _ _ inner =>
      have ⟨same, tails⟩ := List.cons.inj split
      have ⟨gap, quoted, longer⟩ := ih inner tails
      exact ⟨gap, quoted, by rw [same, longer]; rfl⟩
    | escaped _ => exact absurd (List.cons.inj split).1.symm noSlash
  | escaped _ ih =>
    cases first with
    | nil => exact absurd (List.cons.inj split).1 (by decide)
    | plain _ noSlash _ => exact absurd (List.cons.inj split).1 noSlash
    | escaped inner =>
      have ⟨same, tails⟩ := List.cons.inj (List.cons.inj split).2
      have ⟨gap, quoted, longer⟩ := ih inner tails
      exact ⟨gap, quoted, by rw [same, longer]; rfl⟩

theorem inside_unique {one two rest behind : Text} (first : Inside one) (second : Inside two)
    (split : one ++ '"' :: rest = two ++ '"' :: behind) : one = two ∧ rest = behind := by
  have ⟨gap, quoted, longer⟩ := inside_append first second split
  rw [longer, List.append_assoc] at split
  have tails := List.append_cancel_left split
  cases quoted with
  | nil => exact ⟨by rw [longer, List.append_nil], (List.cons.inj tails).2⟩
  | plain noQuote _ _ => exact absurd (List.cons.inj tails).1 noQuote
  | escaped _ => exact absurd (List.cons.inj tails).1 (by decide)

theorem determined_string : Determined StringEnds where
  total whole := by
    by_cases closed : ∃ inside behind, Inside inside ∧ whole = inside ++ '"' :: behind
    · have ⟨inside, behind, quoted, split⟩ := closed
      exact ⟨inside ++ ['"'], behind, by rw [split, List.append_assoc]; rfl, .closed quoted⟩
    · refine ⟨whole, [], List.append_nil _, .unclosed ?_⟩
      intro inside behind quoted split
      exact closed ⟨inside, behind, quoted, split⟩
  unique t rest other behind first second split := by
    cases first with
    | @closed one _ quoted =>
      rw [List.append_assoc] at split
      cases second with
      | @closed two _ quoted' =>
        rw [List.append_assoc] at split
        have ⟨same, tails⟩ := inside_unique quoted quoted' split
        exact ⟨by rw [same], tails⟩
      | unclosed stays => exact absurd (split.trans (List.append_nil _)).symm (stays one rest quoted)
    | unclosed stays =>
      rw [List.append_nil] at split
      cases second with
      | @closed two _ quoted' =>
        rw [List.append_assoc] at split
        exact absurd split (stays two behind quoted')
      | unclosed _ => exact ⟨split.trans (List.append_nil _), rfl⟩

theorem determined_line : Determined LineEnds := by
  refine .of_head (fun whole => whole.takeWhile (· ≠ '\n')) ?_ ?_
  · intro whole
    refine ⟨whole.takeWhile (· ≠ '\n'), whole.dropWhile (· ≠ '\n'), List.takeWhile_append_dropWhile, ?_, ?_⟩
    · intro member
      have passed := List.all_eq_true.mp List.all_takeWhile _ member
      simp at passed
    · intro c first
      have ends := List.head?_dropWhile_not (· ≠ '\n') whole
      rw [first] at ends
      simpa using ends
  · intro line rest ends
    have passes : ∀ c ∈ line, decide (c ≠ '\n') = true := by
      intro c member
      exact decide_eq_true fun newline => ends.oneLine (newline ▸ member)
    have halts : rest.takeWhile (· ≠ '\n') = [] := by
      cases rest with
      | nil => rfl
      | cons c rest => exact List.takeWhile_cons_of_neg (by simp [ends.stops c rfl])
    rw [List.takeWhile_append_of_pos passes, halts, List.append_nil]

theorem first?_ending_eq_none {t : Text} (absent : ¬ ending <:+: t) : (Pattern.word '*' ['/']).first? t = none := by
  apply (exact_ending.first?_eq_none_iff t).mpr
  intro word inside spelled
  have ⟨_, same⟩ := spelled
  subst same
  exact absent inside

theorem split_at_ending {t : Text} (found : ending <:+: t) :
    ∃ inside rest, ¬ ending <:+: inside ∧ t = inside ++ (ending ++ rest) := by
  induction t with
  | nil => simp at found
  | cons c t ih =>
    by_cases here : ending <+: c :: t
    · have ⟨rest, split⟩ := here
      exact ⟨[], rest, by simp, split.symm⟩
    · have ⟨inside, rest, absent, split⟩ := ih ((List.infix_cons_iff.mp found).resolve_left here)
      refine ⟨c :: inside, rest, ?_, by rw [split]; rfl⟩
      intro again
      cases List.infix_cons_iff.mp again with
      | inl begins => exact here (begins.trans (by rw [split]; exact List.prefix_append (c :: inside) _))
      | inr later => exact absent later

def blockHead (whole : Text) : Text :=
  match (Pattern.word '*' ['/']).first? whole with
  | some (inside, _, _) => inside ++ ending
  | none => whole

theorem determined_block : Determined BlockEnds := by
  refine .of_head blockHead ?_ ?_
  · intro whole
    by_cases found : ending <:+: whole
    · have ⟨inside, rest, absent, split⟩ := split_at_ending found
      exact ⟨inside ++ ending, rest, by rw [split, List.append_assoc], .closed absent⟩
    · exact ⟨whole, [], List.append_nil _, .unclosed found⟩
  · intro t rest ends
    cases ends with
    | closed absent => rw [blockHead, List.append_assoc, first?_ending_of_absent absent]
    | unclosed absent => rw [blockHead, List.append_nil, first?_ending_eq_none absent]

/-! ### One part -/

theorem text_ne_nil {part : Part} {rest : Text} (stands : Stands part rest) : part.text ≠ [] := by
  cases stands <;> exact List.cons_ne_nil _ _

theorem stands_exists (c : Char) (t : Text) : ∃ part rest, part.text ++ rest = c :: t ∧ Stands part rest := by
  by_cases quote : c = '"'
  · have ⟨inside, rest, split, ends⟩ := determined_string.total t
    exact ⟨_, rest, by rw [quote, ← split]; rfl, .string ends⟩
  · by_cases opens : OpensComment (c :: t)
    · cases opens with
      | inl line =>
        have ⟨behind, whole⟩ := line
        have ⟨inside, rest, split, ends⟩ := determined_line.total behind
        exact ⟨_, rest, by rw [← whole, ← split]; rfl, .lineComment ends⟩
      | inr block =>
        have ⟨behind, whole⟩ := block
        have ⟨inside, rest, split, ends⟩ := determined_block.total behind
        exact ⟨_, rest, by rw [← whole, ← split]; rfl, .blockComment ends⟩
    · exact ⟨_, t, rfl, .single quote opens⟩

theorem not_single_before_comment {c d : Char} {t rest : Text} (comment : d = '/' ∨ d = '*')
    (lone : ¬ OpensComment (c :: rest)) : '/' :: d :: t ≠ c :: rest := by
  intro same
  rw [← same] at lone
  cases comment with
  | inl line => exact lone (.inl ⟨t, by rw [line]; rfl⟩)
  | inr block => exact lone (.inr ⟨t, by rw [block]; rfl⟩)

theorem stands_unique {one two : Part} {rest behind : Text} (first : Stands one rest) (second : Stands two behind)
    (split : one.text ++ rest = two.text ++ behind) : one = two ∧ rest = behind := by
  cases first with
  | @string t _ ends =>
    cases second with
    | @string other _ ends' =>
      have ⟨same, tails⟩ := determined_string.unique t rest other behind ends ends' (List.cons.inj split).2
      exact ⟨by rw [same], tails⟩
    | lineComment | blockComment => exact absurd (List.cons.inj split).1 (by decide)
    | single noQuote _ => exact absurd (List.cons.inj split).1.symm noQuote
  | @lineComment t _ ends =>
    cases second with
    | string => exact absurd (List.cons.inj split).1 (by decide)
    | @lineComment other _ ends' =>
      have tails := (List.cons.inj (List.cons.inj split).2).2
      have ⟨same, tails⟩ := determined_line.unique t rest other behind ends ends' tails
      exact ⟨by rw [same], tails⟩
    | blockComment => exact absurd (List.cons.inj (List.cons.inj split).2).1 (by decide)
    | single _ lone => exact absurd split (not_single_before_comment (.inl rfl) lone)
  | @blockComment t _ ends =>
    cases second with
    | string => exact absurd (List.cons.inj split).1 (by decide)
    | lineComment => exact absurd (List.cons.inj (List.cons.inj split).2).1 (by decide)
    | @blockComment other _ ends' =>
      have tails := (List.cons.inj (List.cons.inj split).2).2
      have ⟨same, tails⟩ := determined_block.unique t rest other behind ends ends' tails
      exact ⟨by rw [same], tails⟩
    | single _ lone => exact absurd split (not_single_before_comment (.inr rfl) lone)
  | single noQuote lone =>
    cases second with
    | string => exact absurd (List.cons.inj split).1 noQuote
    | lineComment => exact absurd split.symm (not_single_before_comment (.inl rfl) lone)
    | blockComment => exact absurd split.symm (not_single_before_comment (.inr rfl) lone)
    | single _ _ =>
      have ⟨same, tails⟩ := List.cons.inj split
      exact ⟨by rw [same], tails⟩

/-! ### All parts -/

theorem splits_exists (t : Text) : ∃ parts, Splits t parts := by
  induction size : t.length using Nat.strongRecOn generalizing t with
  | ind n ih =>
    cases t with
    | nil => exact ⟨[], .nil⟩
    | cons c t =>
      have ⟨part, rest, split, stands⟩ := stands_exists c t
      have shorter : rest.length < n := by
        have positive := List.length_pos_iff.mpr (text_ne_nil stands)
        rw [← split, List.length_append] at size
        omega
      have ⟨parts, splits⟩ := ih rest.length shorter rest rfl
      exact ⟨part :: parts, split ▸ .cons stands splits⟩

theorem splits_unique {t : Text} {one two : List Part} (first : Splits t one) (second : Splits t two) :
    one = two := by
  induction first generalizing two with
  | nil =>
    generalize empty : ([] : Text) = t at second
    cases second with
    | nil => rfl
    | cons stands _ => exact absurd (List.append_eq_nil_iff.mp empty.symm).1 (text_ne_nil stands)
  | @cons part rest parts stands _ ih =>
    generalize whole : part.text ++ rest = t at second
    cases second with
    | nil => exact absurd (List.append_eq_nil_iff.mp whole).1 (text_ne_nil stands)
    | cons stands' splits' =>
      have ⟨same, tails⟩ := stands_unique stands stands' whole
      subst same tails
      rw [ih splits']

theorem join_cons (part : Part) (parts : List Part) : Part.join (part :: parts) = part.text ++ Part.join parts :=
  List.flatMap_cons

theorem join_of_splits {t : Text} {parts : List Part} (splits : Splits t parts) : Part.join parts = t := by
  induction splits with
  | nil => rfl
  | cons _ _ ih => rw [join_cons, ih]

end TagCalls.Config
