import TagCalls.Proofs.Tag.Reading
import TagCalls.Proofs.Text.Offset

/-!
One step of the scan against the grammar. An item stands at an offset of the source, and the scanner
yields the one at the least offset that is not before its position, wherever that position is.
Behind a tag the scan goes on at the end of the tag, and behind a failure nothing follows.
-/
namespace TagCalls.Tag

inductive ItemAt (source : Text) : Nat → Except Unterminated Token → Prop
  | tagged {before head rest : Text} {tag : Tag} : source = before ++ head →
      Stands head (.tagged tag rest) →
      ItemAt source before.bytes (.ok ⟨tag, ⟨before.bytes, source.bytes - rest.bytes⟩⟩)
  | stuck {before head name : Text} : source = before ++ head → Stands head (.stuck name) →
      ItemAt source before.bytes (.error ⟨name, ⟨before.bytes, source.bytes⟩⟩)

structure FirstItem (source : Text) (position offset : Nat) (item : Except Unterminated Token) :
    Prop where
  reached : position ≤ offset
  stands : ItemAt source offset item
  least : ∀ other found, position ≤ other → ItemAt source other found → offset ≤ other

def Reading.itemAt? (source : Text) (offset : Nat) : Reading → Option (Except Unterminated Token)
  | .tagged tag rest => some (.ok ⟨tag, ⟨offset, source.bytes - rest.bytes⟩⟩)
  | .stuck name => some (.error ⟨name, ⟨offset, source.bytes⟩⟩)
  | .plain => none

theorem itemAt_read {source : Text} {offset : Nat} {item : Except Unterminated Token}
    (stands : ItemAt source offset item) :
    ∃ before head, source = before ++ head ∧ offset = before.bytes ∧
      (read head).itemAt? source offset = some item := by
  cases stands with
  | @tagged before head rest tag cut stands =>
    exact ⟨before, head, cut, rfl, by rw [read_of_stands stands]; rfl⟩
  | @stuck before head name cut stands =>
    exact ⟨before, head, cut, rfl, by rw [read_of_stands stands]; rfl⟩

theorem itemAt_cut {source : Text} {offset : Nat} {item : Except Unterminated Token}
    (stands : ItemAt source offset item) :
    ∃ before head, source = before ++ head ∧ offset = before.bytes ∧ read head ≠ .plain := by
  rcases itemAt_read stands with ⟨before, head, cut, place, made⟩
  refine ⟨before, head, cut, place, ?_⟩
  intro plain
  rw [plain] at made
  cases made

theorem itemAt_unique {source : Text} {offset : Nat} {first second : Except Unterminated Token}
    (one : ItemAt source offset first) (two : ItemAt source offset second) : first = second := by
  rcases itemAt_read one with ⟨before, head, cut, place, made⟩
  rcases itemAt_read two with ⟨before', head', cut', place', made'⟩
  have same := Text.append_inj_of_bytes (cut.symm.trans cut') (place.symm.trans place')
  rw [same.2] at made
  exact Option.some.inj (made.symm.trans made')

theorem firstItem_unique {source : Text} {position offset other : Nat}
    {first second : Except Unterminated Token} (one : FirstItem source position offset first)
    (two : FirstItem source position other second) : first = second := by
  have level : offset = other :=
    Nat.le_antisymm (one.least _ _ two.reached two.stands) (two.least _ _ one.reached one.stands)
  subst level
  exact itemAt_unique one.stands two.stands

theorem itemAt_behind_silent {before gap head : Text} {offset : Nat}
    {item : Except Unterminated Token} (silent : Silent gap head)
    (stands : ItemAt (before ++ (gap ++ head)) offset item) (reached : before.bytes ≤ offset) :
    (before ++ gap).bytes ≤ offset := by
  rcases itemAt_cut stands with ⟨first, behind, cut, rfl, found⟩
  rcases Text.append_eq_append_of_bytes_le cut reached with ⟨front, rfl, rest⟩
  rw [Text.bytes_append, Text.bytes_append]
  rcases Nat.lt_or_ge front.bytes gap.bytes with early | late
  · rcases Text.append_eq_append_of_bytes_le rest.symm (Nat.le_of_lt early) with ⟨back, rfl, rfl⟩
    have nonempty : back ≠ [] := by
      intro same
      subst same
      simp at early
    exact absurd (silent back (List.suffix_append _ _) nonempty) found
  · omega

theorem firstItem_of_silent {source before gap head : Text} {position : Nat}
    {item : Except Unterminated Token} (cut : source = before ++ (gap ++ head)) (silent : Silent gap head)
    (stands : ItemAt source (before ++ gap).bytes item) (reached : position ≤ before.bytes)
    (first : ∀ other found, position ≤ other → ItemAt source other found → before.bytes ≤ other) :
    FirstItem source position (before ++ gap).bytes item := by
  refine ⟨?_, stands, ?_⟩
  · rw [Text.bytes_append]
    omega
  · intro other found late stands'
    have behind := first other found late stands'
    rw [cut] at stands'
    exact itemAt_behind_silent silent stands' behind

def Token.clamp (token : Token) : Token := ⟨token.tag, .of token.span.start token.span.stop⟩

/-- Where the scan goes on behind a tag: a closing tag is left at the end of the clamped span. -/
def Token.resume (token : Token) : Nat :=
  if token.tag.kind = .closing then Span.clamp token.span.stop else token.span.stop

namespace Scanner

/-- The step for what is found behind `before`, at offsets of any size. -/
def stepAt (source before ahead : Text) : Step :=
  match find ahead with
  | .tagged gap tag rest =>
    .token gap ⟨tag, ⟨(before ++ gap).bytes, source.bytes - rest.bytes⟩⟩ (source.bytes - rest.bytes)
  | .stuck gap name => .failure gap ⟨name, ⟨(before ++ gap).bytes, source.bytes⟩⟩
  | .none => .done ahead

def Step.clamp : Step → Step
  | .token gap found _ => .token gap found.clamp found.resume
  | .failure gap broken => .failure gap ⟨broken.name, .of broken.span.start broken.span.stop⟩
  | .done tail => .done tail

theorem next_eq_clamp {source before ahead : Text} {position : Nat} (cut : source = before ++ ahead)
    (dropped : source.dropBytes position = ahead) :
    next { source, position } = (stepAt source before ahead).clamp := by
  have base : source.bytes - ahead.bytes = before.bytes := by
    rw [cut, Text.bytes_append]
    omega
  simp only [next, stepAt, Bool.false_eq_true, if_false, dropped, base, ← Text.bytes_append]
  cases find ahead <;> rfl

theorem next_eq_stepAt {source before ahead : Text} {position : Nat} (small : source.bytes ≤ Span.maxOffset)
    (cut : source = before ++ ahead) (dropped : source.dropBytes position = ahead) :
    next { source, position } = stepAt source before ahead := by
  have unclamped {offset : Nat} (inside : offset ≤ source.bytes) : Span.clamp offset = offset :=
    Span.clamp_of_le (Nat.le_trans inside small)
  have start {gap head : Text} (split : ahead = gap ++ head) : (before ++ gap).bytes ≤ source.bytes := by
    rw [cut, split, ← List.append_assoc, Text.bytes_append (before ++ gap) head]
    omega
  have finds := finds_find ahead
  rw [next_eq_clamp cut dropped, stepAt]
  cases found : find ahead with
  | none => rfl
  | stuck gap name =>
    rw [found] at finds
    cases finds
    simp only [Step.clamp, Span.of, unclamped (start rfl), unclamped (Nat.le_refl _)]
  | tagged gap tag rest =>
    rw [found] at finds
    cases finds
    simp only [Step.clamp, Token.clamp, Token.resume, Span.of, unclamped (start rfl), unclamped (Nat.sub_le _ _),
      ite_self]

def advance (scanner : Scanner) : Scanner := scanner.after scanner.next

theorem next_of_finished {scanner : Scanner} (finished : scanner.finished) : scanner.next = .done [] := by
  rw [next, if_pos finished]

theorem finished_yields_nothing {scanner : Scanner} (finished : scanner.finished) (asked : Nat) :
    (Nat.repeat advance asked scanner).next.item? = none := by
  have stays : (Nat.repeat advance asked scanner).finished := by
    induction asked with
    | zero => exact finished
    | succ asked ih =>
      rw [Nat.repeat, advance, next_of_finished ih]
      rfl
  rw [next_of_finished stays]
  rfl

theorem finished_of_no_token {scanner : Scanner} (ended : ∀ token, scanner.next.item? ≠ some (.ok token)) :
    scanner.advance.finished := by
  unfold advance
  cases step : scanner.next with
  | token gap token position => exact absurd (by rw [step]; rfl) (ended token)
  | failure gap failure => rfl
  | done tail => rfl

theorem stepAt_cases (source : Text) (position : Nat) :
    ∃ before, source = before ++ source.dropBytes position ∧
      ((∃ offset item, FirstItem source position offset item ∧
        (stepAt source before (source.dropBytes position)).item? = some item) ∨
      ((stepAt source before (source.dropBytes position)).item? = none ∧
        ∀ offset item, position ≤ offset → ¬ ItemAt source offset item)) := by
  rcases Text.dropBytes_first_cut position source with ⟨before, cut, reached, least⟩
  have first : ∀ other found, position ≤ other → ItemAt source other found → before.bytes ≤ other := by
    intro other found late stands
    rcases itemAt_cut stands with ⟨front, behind, split, rfl, _⟩
    exact least front behind split late
  refine ⟨before, cut, ?_⟩
  rw [stepAt]
  have finds := finds_find (source.dropBytes position)
  generalize source.dropBytes position = ahead at *
  cases found : find ahead with
  | none =>
    rw [found] at finds
    cases finds with
    | none silent =>
      refine .inr ⟨rfl, ?_⟩
      intro offset item late stands
      have inside := first offset item late stands
      rw [cut, ← List.append_nil ahead] at stands
      have behind := itemAt_behind_silent silent stands inside
      rcases itemAt_cut stands with ⟨front, rest, split, rfl, seen⟩
      rw [List.append_nil] at split
      rw [split, Text.bytes_append] at behind
      obtain rfl : rest = [] := Text.bytes_eq_zero.mp (by omega)
      exact seen rfl
  | stuck gap name =>
    rw [found] at finds
    cases finds with
    | @stuck gap head name silent stands =>
      have here := ItemAt.stuck (cut.trans (List.append_assoc _ _ _).symm) stands
      have near := reached.resolve_right (by simp [stands_ne_nil stands])
      exact .inl ⟨_, _, firstItem_of_silent cut silent here near first, rfl⟩
  | tagged gap tag rest =>
    rw [found] at finds
    cases finds with
    | @tagged gap head rest tag silent stands =>
      have here := ItemAt.tagged (cut.trans (List.append_assoc _ _ _).symm) stands
      have near := reached.resolve_right (by simp [stands_ne_nil stands])
      exact .inl ⟨_, _, firstItem_of_silent cut silent here near first, rfl⟩

theorem next_cases (source : Text) (position : Nat) (small : source.bytes ≤ Span.maxOffset) :
    (∃ offset item, FirstItem source position offset item ∧
      (next { source, position }).item? = some item) ∨
    ((next { source, position }).item? = none ∧
      ∀ offset item, position ≤ offset → ¬ ItemAt source offset item) := by
  obtain ⟨before, cut, cases⟩ := stepAt_cases source position
  rw [next_eq_stepAt small cut rfl]
  exact cases

theorem advance_of_token {source : Text} {position : Nat} (small : source.bytes ≤ Span.maxOffset) {token : Token}
    (yields : (next { source, position }).item? = some (.ok token)) :
    advance { source, position } = { source, position := token.span.stop } := by
  rcases Text.dropBytes_first_cut position source with ⟨before, cut, _⟩
  rw [next_eq_stepAt small cut rfl, stepAt] at yields
  rw [advance, next_eq_stepAt small cut rfl, stepAt]
  cases found : find (source.dropBytes position) with
  | none =>
    rw [found] at yields
    cases yields
  | stuck gap name =>
    rw [found] at yields
    cases yields
  | tagged gap tag rest =>
    rw [found] at yields
    cases yields
    rfl

/-- From any position the scanner yields exactly the first item of the grammar, and nothing only if no
item stands there. It goes on at the end of a tag, and after a failure or the end of the source it
yields nothing any more. -/
theorem next_yields_first_item (source : Text) (position : Nat) (small : source.bytes ≤ Span.maxOffset) :
    let scanner : Scanner := { source, position }
    (∀ item, scanner.next.item? = some item ↔ ∃ offset, FirstItem source position offset item) ∧
    (scanner.next.item? = none ↔ ∀ offset item, position ≤ offset → ¬ ItemAt source offset item) ∧
    (∀ token, scanner.next.item? = some (.ok token) →
      scanner.advance = { source, position := token.span.stop }) ∧
    ((∀ token, scanner.next.item? ≠ some (.ok token)) →
      ∀ asked, (Nat.repeat advance asked scanner.advance).next.item? = none) := by
  intro scanner
  refine ⟨?_, ?_, fun token yields => advance_of_token small yields,
    fun ended => finished_yields_nothing (finished_of_no_token ended)⟩
  · intro item
    rcases next_cases source position small with ⟨offset, found, first, yields⟩ | ⟨yields, none⟩
    · constructor
      · intro yielded
        obtain rfl : found = item := Option.some.inj (yields.symm.trans yielded)
        exact ⟨offset, first⟩
      · intro placed
        rcases placed with ⟨other, second⟩
        rw [firstItem_unique second first]
        exact yields
    · constructor
      · intro yielded
        cases yields.symm.trans yielded
      · intro placed
        rcases placed with ⟨offset, first⟩
        exact absurd first.stands (none offset item first.reached)
  · rcases next_cases source position small with ⟨offset, found, first, yields⟩ | ⟨yields, none⟩
    · constructor
      · intro ended
        cases yields.symm.trans ended
      · intro none
        exact absurd first.stands (none offset found first.reached)
    · exact ⟨fun _ => none, fun _ => yields⟩

/-- The `<a` whose quoted value runs to the end of the text is plain, and what it had taken up is read
again: the tag inside the quotes is the first item. -/
theorem next_yields_rewound_tag : Text.bytes "<a \"<b>\"".toList ≤ Span.maxOffset ∧
    ∃ offset, FirstItem "<a \"<b>\"".toList 0 offset (.ok ⟨⟨.opening, "b".toList, []⟩, ⟨4, 7⟩⟩) :=
  ⟨by decide, ((next_yields_first_item "<a \"<b>\"".toList 0 (by decide)).1 _).mp rfl⟩

end Scanner
end TagCalls.Tag
