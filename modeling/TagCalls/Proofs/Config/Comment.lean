import TagCalls.Config.Comment
import TagCalls.Proofs.Config.Part

/-!
Taking the comments out of a configuration text leaves its other parts. These are the parts of what is left,
because no character gets a neighbour with which it opens a comment. Main statement: `removeComments_keeps_parts`.
-/
namespace TagCalls.Config

open Transpiled (ending)

/-! ### The reader inside a part -/

theorem removeFrom_inside {inside : Text} (quoted : Inside inside) (rest : Text) :
    removeFrom .string (inside ++ '"' :: rest) = inside ++ '"' :: removeComments rest := by
  induction quoted with
  | nil => rfl
  | @plain c t noQuote noSlash _ ih => simp [removeFrom, noQuote, noSlash, ih]
  | escaped _ ih => simp [removeFrom, ih]

theorem staysOpen_tail {c : Char} {t : Text} (noSlash : c ≠ '\\') (stays : StaysOpen (c :: t)) :
    c ≠ '"' ∧ StaysOpen t := by
  have noQuote : c ≠ '"' := by
    intro quote
    exact stays [] t .nil (by rw [quote]; rfl)
  refine ⟨noQuote, ?_⟩
  intro inside behind quoted split
  exact stays (c :: inside) behind (.plain noQuote noSlash quoted) (by rw [split]; rfl)

theorem staysOpen_escaped {c : Char} {t : Text} (stays : StaysOpen ('\\' :: c :: t)) : StaysOpen t := by
  intro inside behind quoted split
  exact stays ('\\' :: c :: inside) behind (.escaped quoted) (by rw [split]; rfl)

theorem removeFrom_unclosed (t : Text) :
    (StaysOpen t → removeFrom .string t = t) ∧ (StaysOpen ('\\' :: t) → removeFrom .escape t = t) := by
  -- The two places of a reader in a string take turns, so both are followed at once.
  induction t with
  | nil => exact ⟨fun _ => rfl, fun _ => rfl⟩
  | cons c t ih =>
    constructor
    · intro stays
      by_cases slash : c = '\\'
      · subst slash
        exact congrArg ('\\' :: ·) (ih.2 stays)
      · have ⟨noQuote, later⟩ := staysOpen_tail slash stays
        simp [removeFrom, noQuote, slash, ih.1 later]
    · intro stays
      exact congrArg (c :: ·) (ih.1 (staysOpen_escaped stays))

theorem removeFrom_string {t rest : Text} (ends : StringEnds t rest) :
    removeFrom .string (t ++ rest) = t ++ removeComments rest := by
  cases ends with
  | @closed inside rest quoted =>
    rw [List.append_assoc, List.append_assoc]
    exact removeFrom_inside quoted rest
  | unclosed stays =>
    rw [List.append_nil]
    exact ((removeFrom_unclosed t).1 stays).trans (List.append_nil t).symm

theorem removeFrom_lineComment {line rest : Text} (ends : LineEnds line rest) :
    removeFrom .lineComment (line ++ rest) = removeComments rest := by
  have ⟨oneLine, stops⟩ := ends
  clear ends
  induction line with
  | nil =>
    cases rest with
    | nil => rfl
    | cons c rest =>
      have newline : c = '\n' := stops c rfl
      subst newline
      rfl
  | cons c line ih =>
    have ⟨here, later⟩ := not_or.mp fun member => oneLine (List.mem_cons.mpr member)
    simp [removeFrom, Ne.symm here, ih later]

theorem removeFrom_blockComment_cons {c : Char} {t : Text} (other : ¬ ending <+: c :: t) :
    removeFrom .blockComment (c :: t) = removeFrom .blockComment t := by
  rw [removeFrom]
  intro behind star slash
  exact other ⟨behind, by rw [star, slash]; rfl⟩

theorem removeFrom_closed {inside : Text} (absent : ¬ ending <:+: inside) (rest : Text) :
    removeFrom .blockComment (inside ++ (ending ++ rest)) = removeComments rest := by
  induction inside with
  | nil => rfl
  | cons c inside ih =>
    have ⟨here, later⟩ := not_or.mp fun found => absent (List.infix_cons_iff.mpr found)
    rw [List.cons_append, removeFrom_blockComment_cons, ih later]
    intro begins
    exact here (Text.prefix_of_lone (by decide) (by simp) begins)

theorem removeFrom_notClosed {t : Text} (absent : ¬ ending <:+: t) : removeFrom .blockComment t = [] := by
  induction t with
  | nil => rfl
  | cons c t ih =>
    have ⟨here, later⟩ := not_or.mp fun found => absent (List.infix_cons_iff.mpr found)
    rw [removeFrom_blockComment_cons here, ih later]

theorem removeFrom_blockComment {t rest : Text} (ends : BlockEnds t rest) :
    removeFrom .blockComment (t ++ rest) = removeComments rest := by
  cases ends with
  | closed absent =>
    rw [List.append_assoc]
    exact removeFrom_closed absent rest
  | unclosed absent =>
    rw [List.append_nil]
    exact removeFrom_notClosed absent

/-! ### One part and all parts -/

theorem removeComments_single {c : Char} {rest : Text} (noQuote : c ≠ '"') (lone : ¬ OpensComment (c :: rest)) :
    removeComments (c :: rest) = c :: removeComments rest := by
  rw [removeComments, removeFrom, if_neg noQuote]
  · rfl
  · intro t slash same
    exact lone (.inl ⟨t, by rw [slash, same]; rfl⟩)
  · intro t slash same
    exact lone (.inr ⟨t, by rw [slash, same]; rfl⟩)

theorem removeComments_of_stands {part : Part} {rest : Text} (stands : Stands part rest) :
    removeComments (part.text ++ rest) = Part.join (Part.kept [part]) ++ removeComments rest := by
  cases stands with
  | @string t rest ends =>
    calc
      removeComments ('"' :: (t ++ rest)) = '"' :: removeFrom .string (t ++ rest) := rfl
      _ = '"' :: (t ++ removeComments rest) := by rw [removeFrom_string ends]
      _ = Part.join [.string ('"' :: t)] ++ removeComments rest := by simp [Part.join, Part.text]
  | lineComment ends => exact removeFrom_lineComment ends
  | blockComment ends => exact removeFrom_blockComment ends
  | single noQuote lone => exact removeComments_single noQuote lone

theorem kept_of_comment {part : Part} (comment : part.isComment = true) (parts : List Part) :
    Part.kept (part :: parts) = Part.kept parts :=
  List.filter_cons_of_neg (by simp [comment])

theorem kept_of_plain {part : Part} (plain : part.isComment = false) (parts : List Part) :
    Part.kept (part :: parts) = part :: Part.kept parts :=
  List.filter_cons_of_pos (by simp [plain])

theorem removeComments_of_splits {t : Text} {parts : List Part} (splits : Splits t parts) :
    removeComments t = Part.join (Part.kept parts) := by
  induction splits with
  | nil => rfl
  | @cons part rest parts stands _ ih =>
    calc
      removeComments (part.text ++ rest) = Part.join (Part.kept [part]) ++ Part.join (Part.kept parts) := by
        rw [removeComments_of_stands stands, ih]
      _ = Part.join (Part.kept (part :: parts)) := by
        rw [Part.join, Part.join, Part.join, ← List.flatMap_append, Part.kept, Part.kept, ← List.filter_append]
        rfl

/-! ### What is left -/

theorem opensComment_cons {c : Char} {t : Text} :
    OpensComment (c :: t) ↔ c = '/' ∧ (t.head? = some '/' ∨ t.head? = some '*') := by
  unfold OpensComment
  cases t with
  | nil => simp
  | cons d t => simp [List.cons_prefix_cons, eq_comm, and_or_left]

theorem head?_kept {t : Text} {parts : List Part} (splits : Splits t parts) (other : t.head? ≠ some '/') :
    (Part.join (Part.kept parts)).head? = t.head? := by
  -- A comment begins with a slash, so what comes first in a text that does not is kept.
  cases splits with
  | nil => rfl
  | @cons part rest parts stands _ =>
    have plain : part.isComment = false := by
      cases stands with
      | string | single => rfl
      | lineComment | blockComment => exact absurd rfl other
    rw [kept_of_plain plain, join_cons, List.head?_append_of_ne_nil _ (text_ne_nil stands),
      List.head?_append_of_ne_nil _ (text_ne_nil stands)]

theorem stands_kept {part : Part} {rest : Text} {parts : List Part} (stands : Stands part rest)
    (plain : part.isComment = false) (splits : Splits rest parts) : Stands part (Part.join (Part.kept parts)) := by
  cases stands with
  | string ends =>
    cases ends with
    | closed quoted => exact .string (.closed quoted)
    | unclosed stays =>
      rw [splits_unique splits .nil]
      exact .string (.unclosed stays)
  | lineComment | blockComment => cases plain
  | single noQuote lone =>
    refine .single noQuote ?_
    intro opens
    -- Behind a slash that stays stands no slash, so no comment begins there and the next character stays too.
    have ⟨slash, second⟩ := opensComment_cons.mp opens
    have apart : rest.head? ≠ some '/' := fun next => lone (opensComment_cons.mpr ⟨slash, .inl next⟩)
    rw [head?_kept splits apart] at second
    exact lone (opensComment_cons.mpr ⟨slash, second⟩)

theorem splits_kept {t : Text} {parts : List Part} (splits : Splits t parts) :
    Splits (Part.join (Part.kept parts)) (Part.kept parts) := by
  induction splits with
  | nil => exact .nil
  | @cons part rest parts stands splits ih =>
    cases plain : part.isComment with
    | true =>
      rw [kept_of_comment plain]
      exact ih
    | false =>
      rw [kept_of_plain plain, join_cons]
      exact .cons (stands_kept stands plain splits) ih

theorem kept_kept (parts : List Part) : Part.kept (Part.kept parts) = Part.kept parts := by
  simp [Part.kept]

theorem join_kept_iff {t : Text} {parts : List Part} (splits : Splits t parts) :
    Part.join (Part.kept parts) = t ↔ ∀ part ∈ parts, part.isComment = false := by
  constructor
  · intro same part member
    have again := splits_kept splits
    rw [same] at again
    rw [← splits_unique again splits] at member
    simpa using (List.mem_filter.mp member).2
  · intro plain
    have all : Part.kept parts = parts := List.filter_eq_self.mpr (by simpa using plain)
    rw [all]
    exact join_of_splits splits

/-- A text has exactly one cut into strings, comments and other characters, and what is left of it are the parts
that are no comments. There is no comment in what is left, so that nothing is taken away a second time; and a text
stays as it is exactly if it has no comment outside its strings. -/
theorem removeComments_keeps_parts (t : Text) :
    ∃ parts, Splits t parts ∧ (∀ others, Splits t others → others = parts) ∧
      removeComments t = Part.join (Part.kept parts) ∧ Splits (removeComments t) (Part.kept parts) ∧
      removeComments (removeComments t) = removeComments t ∧
      (removeComments t = t ↔ ∀ part ∈ parts, part.isComment = false) := by
  have ⟨parts, splits⟩ := splits_exists t
  have left := removeComments_of_splits splits
  have again := splits_kept splits
  refine ⟨parts, splits, fun others other => splits_unique other splits, left, left ▸ again, ?_, ?_⟩
  · calc
      removeComments (removeComments t) = removeComments (Part.join (Part.kept parts)) := by rw [left]
      _ = Part.join (Part.kept (Part.kept parts)) := removeComments_of_splits again
      _ = removeComments t := by rw [kept_kept, left]
  · rw [left]
    exact join_kept_iff splits

-- The star behind the first slash does not end the comment.
example : removeComments "1/*/2*/\"/*\"//3\n4".toList = "1\"/*\"\n4".toList := by decide

end TagCalls.Config
