import TagCalls.Proofs.Lowering.Substitution
import TagCalls.Proofs.Text.Search

/-!
What the later passes do to the call of a self-closing tag. The values of its attributes are written into
the call as they are, so a `<` in a value and a `>` in the code behind the tag may look like an opening tag
to the second pass. Main statement: `call_kept_iff`, nothing else changes the call.
-/
namespace TagCalls

/-- A `<` stands right before a character of a name. -/
def Opens (t : Text) : Prop := ∃ before c after, t = before ++ '<' :: c :: after ∧ Text.isNameChar c = true

section

variable {a b : Text}

theorem not_opens_of_bare (bare : '<' ∉ a) : ¬ Opens a := by
  intro opens
  rcases opens with ⟨before, c, after, rfl, _⟩
  exact bare (List.mem_append_right before List.mem_cons_self)

theorem opens_append_left (bare : '<' ∉ a) : Opens (a ++ b) ↔ Opens b := by
  constructor
  · intro opens
    rcases opens with ⟨before, c, after, split, letter⟩
    rcases List.append_eq_append_iff.mp split with ⟨more, rfl, same⟩ | ⟨more, rfl, same⟩
    · exact ⟨more, c, after, same, letter⟩
    · cases more with
      | nil => exact ⟨[], c, after, same.symm, letter⟩
      | cons d more =>
        rcases List.cons.inj same with ⟨rfl, _⟩
        exact absurd (List.mem_append_right before List.mem_cons_self) bare
  · intro opens
    rcases opens with ⟨before, c, after, rfl, letter⟩
    exact ⟨a ++ before, c, after, by simp, letter⟩

theorem opens_around {sign : Char} (other : sign ≠ '<') (stops : Text.isNameChar sign = false) :
    Opens (a ++ sign :: b) ↔ Opens a ∨ Opens b := by
  constructor
  · intro opens
    rcases opens with ⟨before, c, after, split, letter⟩
    rcases List.append_eq_append_iff.mp split with ⟨more, rfl, same⟩ | ⟨more, rfl, same⟩
    · cases more with
      | nil => exact absurd (List.cons.inj same).1 other
      | cons d more => exact .inr ⟨more, c, after, (List.cons.inj same).2, letter⟩
    · cases more with
      | nil => exact absurd (List.cons.inj same).1.symm other
      | cons d more =>
        rcases List.cons.inj same with ⟨rfl, later⟩
        cases more with
        | nil =>
          rcases List.cons.inj later with ⟨rfl, _⟩
          rw [stops] at letter
          cases letter
        | cons e more =>
          rcases List.cons.inj later with ⟨rfl, _⟩
          exact .inl ⟨before, c, more, rfl, letter⟩
  · intro either
    rcases either with ⟨before, c, after, rfl, letter⟩ | ⟨before, c, after, rfl, letter⟩
    · exact ⟨before, c, after ++ sign :: b, by simp, letter⟩
    · exact ⟨a ++ sign :: before, c, after, by simp, letter⟩

end

/-! ### Where a call has a bracket -/

namespace Attribute

theorem isName_key (raw : Text) (item : Attribute) (member : item ∈ parse raw) : Text.IsName item.key := by
  rcases exact_pattern.spelled_of_mem member with ⟨word, _, spelled⟩
  cases spelled with
  | item named _ _ _ => exact named

theorem opens_entry {item : Attribute} (named : Text.IsName item.key) :
    Opens item.entry ↔ Opens item.value.source := by
  have bare : '<' ∉ item.key ++ ": ".toList := by
    have inKey := Text.not_mem_of_isName (c := '<') named (by decide)
    simp [inKey]
  exact opens_append_left bare

theorem opens_intercalate (parts : List Text) :
    Opens ([','].intercalate parts) ↔ ∃ part ∈ parts, Opens part := by
  induction parts with
  | nil => simpa using not_opens_of_bare List.not_mem_nil
  | cons part parts ih =>
    cases parts with
    | nil => simp
    | cons next parts =>
      have split : [','].intercalate (part :: next :: parts) = part ++ ',' :: [','].intercalate (next :: parts) := by
        simp [List.intercalate_cons_cons]
      rw [split, opens_around (by decide) (by decide), ih]
      simp

theorem opens_literal (items : List Attribute) (named : ∀ item ∈ items, Text.IsName item.key) :
    Opens (literal items) ↔ ∃ item ∈ items, Opens item.value.source := by
  cases items with
  | nil => simpa [literal] using not_opens_of_bare (a := "null".toList) (by decide)
  | cons first items =>
    have front : Opens (literal (first :: items)) ↔
        Opens ([','].intercalate ((first :: items).map entry) ++ ['}']) :=
      opens_append_left (a := ['{']) (by decide)
    rw [front, opens_around (by decide) (by decide), opens_intercalate]
    have nothing : ¬ Opens [] := not_opens_of_bare List.not_mem_nil
    constructor
    · intro found
      rcases found.resolve_right nothing with ⟨_, listed, opens⟩
      rcases List.mem_map.mp listed with ⟨item, member, rfl⟩
      exact ⟨item, member, (opens_entry (named item member)).mp opens⟩
    · intro found
      rcases found with ⟨item, member, opens⟩
      exact .inl ⟨item.entry, List.mem_map_of_mem member, (opens_entry (named item member)).mpr opens⟩

end Attribute

namespace Tag

theorem opens_call {word target : Text} {tag : Tag} (kind : tag.kind = .selfClosing) (reads : Reads word tag)
    (noOpen : '<' ∉ target) :
    Opens (tag.call target) ↔ ∃ item ∈ Attribute.parse tag.raw, Opens item.value.source := by
  cases reads with
  | @selfClosing name raw named _ _ =>
    have inName := Text.not_mem_of_isName (c := '<') named (by decide)
    have bare : '<' ∉ target ++ "('".toList ++ name ++ "', ".toList := by simp [noOpen, inName]
    have nothing : ¬ Opens [] := not_opens_of_bare List.not_mem_nil
    have shape : call target ⟨.selfClosing, name, raw⟩ =
        target ++ "('".toList ++ name ++ "', ".toList ++ (Attribute.literal (Attribute.parse raw) ++ ')' :: []) :=
      List.append_assoc _ _ _
    rw [shape, opens_append_left bare, opens_around (by decide) (by decide),
      Attribute.opens_literal _ (Attribute.isName_key raw)]
    exact or_iff_left nothing
  | opening _ _ _ => cases kind
  | closing _ => cases kind

theorem start_mem_form {kind : Kind} {word : Text} (form : Form kind word) : '<' ∈ word := by
  cases form <;> simp

theorem end_mem_form {kind : Kind} {word : Text} (form : Form kind word) : '>' ∈ word := by
  cases form <;> simp

theorem end_not_mem_call {word target : Text} {tag : Tag} (reads : Reads word tag) (noClose : '>' ∉ target) :
    '>' ∉ tag.call target := by
  cases reads with
  | selfClosing named _ absent => exact not_mem_call '>' (by decide) (by decide) target _ named noClose absent
  | opening named _ absent => exact not_mem_call '>' (by decide) (by decide) target _ named noClose absent
  | closing named =>
    exact not_mem_call '>' (by decide) (by decide) target _ named noClose List.not_mem_nil

theorem count_end_read {kind : Kind} {target : Text} (noClose : '>' ∉ target) (t : Text) (tag : Tag) (rest : Text)
    (found : (patternOf kind).read? t = some (tag, rest)) :
    t.count '>' = (tag.call target).count '>' + 1 + rest.count '>' := by
  rcases reads_of_read? found with ⟨word, rfl, _, reads⟩
  rcases form_end (form_of_reads reads) with ⟨front, rfl, absent⟩
  rw [List.count_append, List.count_append, List.count_eq_zero_of_not_mem absent,
    List.count_eq_zero_of_not_mem (end_not_mem_call reads noClose)]
  simp

end Tag

namespace Lowering

/-! ### The passes over a call and the code behind it -/

theorem pass_of_no_form (target t : Text) (kind : Tag.Kind) (quiet : ∀ word, word <:+: t → ¬ Tag.Form kind word) :
    pass target kind t = t := by
  rw [pass_eq_replace]
  exact Pattern.replace_of_no_occurrence _ t (((Tag.recognizes_form kind).occurrences_eq_nil_iff t).mpr quiet)

theorem count_end_pass (target t : Text) (kind : Tag.Kind) (noClose : '>' ∉ target) :
    (pass target kind t).count '>' + ((Tag.patternOf kind).occurrences t).length = t.count '>' := by
  rw [pass_eq_replace]
  apply Pattern.count_replace
  apply Tag.count_end_read
  split
  · exact List.not_mem_nil
  · exact noClose

theorem openingPass_eq_self_iff (target t : Text) (noClose : '>' ∉ target) :
    openingPass target t = t ↔ Tag.opening.occurrences t = [] := by
  -- Each opening tag that is found takes a `>` away.
  have spent : (openingPass target t).count '>' + (Tag.opening.occurrences t).length = t.count '>' :=
    count_end_pass target t .opening noClose
  constructor
  · intro kept
    rw [kept] at spent
    exact List.length_eq_zero_iff.mp (by omega)
  · intro none
    exact Pattern.replace_of_no_occurrence _ t none

theorem later_passes_eq_self_iff (target t : Text) (noClose : '>' ∉ target) (closed : closingPass t = t) :
    closingPass (openingPass target t) = t ↔ Tag.opening.occurrences t = [] := by
  constructor
  · intro kept
    have opened : (openingPass target t).count '>' + (Tag.opening.occurrences t).length = t.count '>' :=
      count_end_pass target t .opening noClose
    have spent := count_end_pass target (openingPass target t) .closing noClose
    have same : pass target .closing (openingPass target t) = t := kept
    rw [same] at spent
    exact List.length_eq_zero_iff.mp (by omega)
  · intro none
    rw [(openingPass_eq_self_iff target t noClose).mpr none, closed]

section

variable {target word rest : Text} {tag : Tag} (kind : tag.kind = .selfClosing) (reads : Tag.Reads word tag)
  (noOpen : '<' ∉ target) (noClose : '>' ∉ target) (bare : '<' ∉ rest)

include kind reads bare in
theorem selfClosingPass_call : selfClosingPass target (word ++ rest) = tag.call target ++ rest := by
  have found := Tag.read?_of_reads reads rest
  rw [kind] at found
  have after : pass target .selfClosing rest = rest := by
    apply pass_of_no_form
    intro word inside form
    exact bare (inside.subset (Tag.start_mem_form form))
  calc
    selfClosingPass target (word ++ rest) = tag.call target ++ pass target .selfClosing rest :=
      Pattern.replace_of_read (Tag.call target) found
    _ = tag.call target ++ rest := by rw [after]

include kind in
theorem call_last (target : Text) : ∃ front, tag.call target = front ++ [')'] := by
  rcases tag with ⟨_, name, raw⟩
  cases kind
  exact ⟨_, rfl⟩

include kind reads noClose bare in
theorem closingPass_call : closingPass (tag.call target ++ rest) = tag.call target ++ rest := by
  apply pass_of_no_form target _ .closing
  intro closing inside form
  have noEnd := Tag.end_not_mem_call reads noClose
  rcases call_last kind target with ⟨front, last⟩
  -- A closing tag has no parenthesis, so it would lie on one side of the call's last one.
  rw [last, List.append_assoc, List.singleton_append] at inside
  rcases Text.infix_of_absent (foreign_closing closing form) inside with within | behind
  · apply noEnd
    rw [last]
    exact List.mem_append_left _ (within.subset (Tag.end_mem_form form))
  · exact bare (behind.subset (Tag.start_mem_form form))

include kind reads noClose bare in
theorem form_in_call_iff : (∃ opening, opening <:+: tag.call target ++ rest ∧ Tag.Form .opening opening) ↔
    Opens (tag.call target) ∧ '>' ∈ rest := by
  have noEnd := Tag.end_not_mem_call reads noClose
  constructor
  · intro found
    rcases found with ⟨_, ⟨before, after, split⟩, form⟩
    cases form with
    | @opening name raw named _ =>
      rcases named.head with ⟨c, tail, rfl, letter⟩
      have whole : tag.call target ++ rest = before ++ '<' :: c :: (tail ++ raw ++ '>' :: after) := by
        rw [← split]
        simp
      have ends : '>' ∈ tail ++ raw ++ '>' :: after := List.mem_append_right _ List.mem_cons_self
      rcases List.append_eq_append_iff.mp whole with ⟨gap, _, same⟩ | ⟨gap, shape, same⟩
      · rw [same] at bare
        exact absurd (List.mem_append_right gap List.mem_cons_self) bare
      · -- The bracket is in the call, and not its last character.
        rcases gap with _ | ⟨d, _ | ⟨e, gap⟩⟩
        · rw [List.nil_append] at same
          rw [← same] at bare
          exact absurd List.mem_cons_self bare
        · rcases List.cons.inj same with ⟨rfl, _⟩
          rcases call_last kind target with ⟨front, last⟩
          rw [last] at shape
          cases (List.append_inj' shape rfl).2
        · rcases List.cons.inj same with ⟨rfl, later⟩
          rcases List.cons.inj later with ⟨rfl, behind⟩
          refine ⟨⟨before, c, gap, shape, letter⟩, ?_⟩
          rw [behind] at ends
          rcases List.mem_append.mp ends with within | inRest
          · apply absurd _ noEnd
            rw [shape]
            exact List.mem_append_right before (List.mem_cons_of_mem _ (List.mem_cons_of_mem _ within))
          · exact inRest
  · intro both
    rcases both with ⟨⟨before, c, after, shape, letter⟩, ends⟩
    rcases List.eq_append_cons_of_mem ends with ⟨front, back, rfl, first⟩
    have inside : '>' ∉ after ++ front := by
      intro member
      rcases List.mem_append.mp member with within | behind
      · apply noEnd
        rw [shape]
        simp [within]
      · exact first behind
    have named : Text.IsName [c] := ⟨by simp, by simpa using letter⟩
    refine ⟨_, ⟨before, back, ?_⟩, .opening named inside⟩
    rw [shape]
    simp

end

/-- A value of the tag has a `<` before a name, and the code behind the tag has a `>`. -/
def Rematched (tag : Tag) (rest : Text) : Prop :=
  (∃ item ∈ Attribute.parse tag.raw, Opens item.value.source) ∧ '>' ∈ rest

/-- The first pass writes the call of a self-closing tag, and the last one leaves it as it is. The second
one changes it exactly if it finds an opening tag that begins in a value of the call and ends in the code
behind it. -/
theorem call_kept_iff (target word rest : Text) (noOpen : '<' ∉ target) (noClose : '>' ∉ target)
    (form : Tag.Form .selfClosing word) (bare : '<' ∉ rest) :
    ∃ tag, tag.kind = .selfClosing ∧ Tag.Reads word tag ∧
      selfClosingPass target (word ++ rest) = tag.call target ++ rest ∧
      closingPass (tag.call target ++ rest) = tag.call target ++ rest ∧
      (openingPass target (tag.call target ++ rest) = tag.call target ++ rest ↔ ¬ Rematched tag rest) ∧
      (passes target (word ++ rest) = tag.call target ++ rest ↔ ¬ Rematched tag rest) := by
  rcases Tag.reads_of_form form with ⟨tag, kind, reads⟩
  have first : selfClosingPass target (word ++ rest) = tag.call target ++ rest :=
    selfClosingPass_call kind reads bare
  have last := closingPass_call kind reads noClose bare
  have silent : Tag.opening.occurrences (tag.call target ++ rest) = [] ↔ ¬ Rematched tag rest := by
    have inside := form_in_call_iff kind reads noClose bare
    rw [Tag.opens_call kind reads noOpen] at inside
    rw [Rematched, ← inside, not_exists]
    simp only [not_and]
    exact (Tag.recognizes_form .opening).occurrences_eq_nil_iff _
  refine ⟨tag, kind, reads, first, last, ?_, ?_⟩
  · rw [openingPass_eq_self_iff target _ noClose, silent]
  · rw [passes, first, later_passes_eq_self_iff target _ noClose last, silent]

def valued : Text := ['<', 'a', ' ', 'b', '=', '"', '<', 'c', '"', '/', '>']

theorem form_valued : Tag.Form .selfClosing valued :=
  @Tag.Form.selfClosing ['a'] [' ', 'b', '=', '"', '<', 'c', '"'] (by decide) (by decide)

/-- Nothing behind the tag ends what its value begins. -/
theorem valued_call_kept :
    passes "h".toList (valued ++ "; x".toList) = "h('a', \x7bb: \"<c\"\x7d); x".toList := by
  rcases call_kept_iff "h".toList valued "; x".toList (by decide) (by decide) form_valued (by decide) with
    ⟨tag, _, _, first, _, _, kept⟩
  have apart : ¬ Rematched tag "; x".toList := fun rematched => absurd rematched.2 (by decide)
  rw [kept.mpr apart, ← first]
  decide +kernel

/-- The comparison behind the tag ends what its value begins, and the rest of the call is lost. -/
theorem valued_call_rematched :
    Tag.Form .selfClosing valued ∧ '<' ∉ "h".toList ∧ '>' ∉ "h".toList ∧ '<' ∉ "; x > y".toList ∧
      selfClosingPass "h".toList (valued ++ "; x > y".toList) = "h('a', \x7bb: \"<c\"\x7d); x > y".toList ∧
      openingPass "h".toList "h('a', \x7bb: \"<c\"\x7d); x > y".toList ≠ "h('a', \x7bb: \"<c\"\x7d); x > y".toList ∧
      passes "h".toList (valued ++ "; x > y".toList) = "h('a', \x7bb: \"h('c', null,  y".toList :=
  ⟨form_valued, by decide, by decide, by decide, by decide +kernel, by decide +kernel, by decide +kernel⟩

end Lowering
end TagCalls
