import TagCalls.Proofs.Text.Language
import TagCalls.Proofs.Text.Lexeme
import TagCalls.Proofs.Text.Search
import TagCalls.Transpile.Session

/-!
The comment before a script that failed. It quotes the error with every `*/` broken up, and neither what is put
in nor the words around it make a new one; so the comment ends where it is meant to, and behind it stands the
script. Main statement: `comment_not_closed_early`.
-/
namespace TagCalls

namespace Pattern

theorem exact_word (c : Char) (tail : Text) : (word c tail).Exact fun text _ => text = c :: tail := by
  intro t value rest
  constructor
  · intro read
    rcases Option.map_eq_some_iff.mp read with ⟨_, found, same⟩
    cases same
    exact ⟨c :: tail, Text.dropLiteral?_eq_some found, rfl⟩
  · intro spelled
    rcases spelled with ⟨_, rfl, rfl⟩
    exact Option.map_eq_some_iff.mpr ⟨rest, Text.dropLiteral?_append _ _, rfl⟩

theorem read?_word_eq_none_iff {c : Char} {tail t : Text} : (word c tail).read? t = none ↔ ¬ c :: tail <+: t := by
  rw [(exact_word c tail).recognizes.read?_eq_none_iff]
  constructor
  · intro quiet begins
    exact quiet (c :: tail) begins ⟨(), rfl⟩
  · intro other text begins spelled
    rcases spelled with ⟨_, rfl⟩
    exact other begins

theorem silent_word {c : Char} {tail gap : Text} (lone : c ∉ tail) (absent : ¬ c :: tail <:+: gap) (rest : Text) :
    (word c tail).Silent gap (c :: tail ++ rest) := by
  -- The first character of the word keeps it from reaching across the end of the gap.
  intro back shorter nonempty
  apply read?_word_eq_none_iff.mpr
  intro begins
  exact absent ((Text.prefix_of_lone lone nonempty begins).isInfix.trans shorter.isInfix)

end Pattern

namespace Transpiled

abbrev ending : Text := ['*', '/']

theorem exact_ending : (Pattern.word '*' ['/']).Exact fun text _ => text = ending := Pattern.exact_word '*' ['/']

theorem read?_ending (t : Text) : (Pattern.word '*' ['/']).read? (ending ++ t) = some ((), t) :=
  exact_ending.read?_append rfl t

theorem first?_ending_of_absent {inside : Text} (absent : ¬ ending <:+: inside) (rest : Text) :
    (Pattern.word '*' ['/']).first? (inside ++ (ending ++ rest)) = some (inside, (), rest) :=
  Pattern.first?_append (Pattern.silent_word (by decide) absent rest) (read?_ending rest)

/-! ### The quoted error -/

theorem commentSafe_ending (t : Text) : commentSafe (ending ++ t) = '*' :: ' ' :: '/' :: commentSafe t :=
  Pattern.replace_of_read _ (read?_ending t)

theorem commentSafe_cons {c : Char} {t : Text} (other : ¬ ending <+: c :: t) :
    commentSafe (c :: t) = c :: commentSafe t :=
  Pattern.replace_of_none _ (Pattern.read?_word_eq_none_iff.mpr other)

theorem slash_of_commentSafe {t rest : Text} (slash : commentSafe t = '/' :: rest) : ∃ tail, t = '/' :: tail := by
  by_cases ends : ending <+: t
  · rcases ends with ⟨behind, rfl⟩
    rw [commentSafe_ending] at slash
    cases slash
  · cases t with
    | nil =>
      rw [commentSafe, Pattern.replace_nil] at slash
      cases slash
    | cons c t =>
      rw [commentSafe_cons ends] at slash
      cases slash
      exact ⟨t, rfl⟩

theorem not_ending_in_commentSafe (message : Text) : ¬ ending <:+: commentSafe message := by
  induction message using Pattern.segments.induct (Pattern.word '*' ['/']) with
  | case1 =>
    rw [commentSafe, Pattern.replace_nil, List.infix_nil]
    simp
  | case2 c t value rest read ih =>
    rcases (exact_ending _ _ _).mp read with ⟨_, split, rfl⟩
    rw [split, commentSafe_ending]
    intro inside
    -- The space that is put in parts the star from the slash.
    rcases @Text.infix_of_absent ' ' ending ['*'] ('/' :: commentSafe rest) (by decide) inside with front | back
    · exact absurd front.length_le (by decide)
    · rcases List.infix_cons_iff.mp back with begins | later
      · cases (List.cons_prefix_cons.mp begins).1
      · exact ih later
  | case3 c t read ih =>
    have other : ¬ ending <+: c :: t := Pattern.read?_word_eq_none_iff.mp read
    rw [commentSafe_cons other]
    intro inside
    rcases List.infix_cons_iff.mp inside with begins | later
    · rcases List.cons_prefix_cons.mp begins with ⟨rfl, rest, slash⟩
      rcases slash_of_commentSafe slash.symm with ⟨tail, rfl⟩
      exact other ⟨tail, rfl⟩
    · exact ih later

/-! ### The comment -/

def noteWords : Text := " minijsx: transpile failed:".toList

def note (error : TranspileError) : Text := noteWords ++ ' ' :: (commentSafe error.message ++ [' '])

theorem annotate_eq (error : TranspileError) (source : Text) :
    annotate error source = '/' :: '*' :: (note error ++ (ending ++ '\n' :: source)) := by
  unfold annotate note noteWords
  generalize commentSafe error.message = quoted
  simp

theorem star_not_mem_noteWords : '*' ∉ noteWords := by decide

theorem not_ending_in_note (error : TranspileError) : ¬ ending <:+: note error := by
  have space : ' ' ∉ ending := by decide
  intro inside
  rw [note] at inside
  rcases Text.infix_of_absent space inside with words | quoted
  · exact star_not_mem_noteWords (words.subset List.mem_cons_self)
  · rcases Text.infix_of_absent space quoted with message | nothing
    · exact not_ending_in_commentSafe error.message message
    · exact absurd (List.infix_nil.mp nothing) (by decide)

/-- Takes away a block comment at the head of a text, up to the first `*/`, and the newline behind it. -/
def dropComment? (t : Text) : Option Text := do
  let inside ← Text.dropLiteral? ['/', '*'] t
  let (_, _, behind) ← (Pattern.word '*' ['/']).first? inside
  Text.dropLiteral? ['\n'] behind

theorem first?_ending (error : TranspileError) (t : Text) :
    (Pattern.word '*' ['/']).first? (note error ++ (ending ++ t)) = some (note error, (), t) :=
  first?_ending_of_absent (not_ending_in_note error) t

/-- The comment before a script that failed ends at the first `*/` behind its opening, whatever the error says;
taken away with its newline, it leaves the script. -/
theorem comment_not_closed_early (error : TranspileError) (source : Text) :
    ∃ inside : Text,
      annotated? (.failed error source) = some ('/' :: '*' :: (inside ++ '*' :: '/' :: '\n' :: source)) ∧
      (∀ front back : Text, inside ++ '*' :: '/' :: '\n' :: source = front ++ '*' :: '/' :: back →
        inside.bytes ≤ front.bytes) ∧
      (annotated? (.failed error source)).bind dropComment? = some source := by
  have found := first?_ending error ('\n' :: source)
  refine ⟨note error, congrArg some (annotate_eq error source), ?_, ?_⟩
  · intro front back split
    rcases exact_ending.earliest_of_first? found with ⟨_, rfl, earliest⟩
    have other : note error ++ (ending ++ '\n' :: source) = front ++ ending ++ back := by
      rw [List.append_assoc]
      exact split
    rcases earliest.first front ending back other ⟨(), rfl⟩ with later | ⟨rfl, _⟩
    · exact Nat.le_of_lt later
    · exact Nat.le_refl _
  · rw [annotated?, Option.bind_some, annotate_eq, dropComment?]
    have opened : Text.dropLiteral? ['/', '*'] ('/' :: '*' :: (note error ++ (ending ++ '\n' :: source))) =
        some (note error ++ (ending ++ '\n' :: source)) := Text.dropLiteral?_append ['/', '*'] _
    simp only [opened, found, Option.bind_eq_bind, Option.bind_some]
    exact Text.dropLiteral?_append ['\n'] source

end Transpiled
end TagCalls
