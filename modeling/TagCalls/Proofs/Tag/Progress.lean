import TagCalls.Proofs.Tag.Loop
import TagCalls.Proofs.Tag.Next

/-!
The scan of a source of any size, call by call. The tags of a source are told by the grammar, with their true spans;
behind a closing tag the scan goes on at the clamped end of its span, so it keeps moving forward as long as closing
tags end at offsets that fit. Main statements: `scan_moves_iff`, and `closing_yielded_again` for a source where it
does not.
-/
namespace TagCalls.Tag

/-- The tags of a source from an offset on, each the first item behind the one before. -/
inductive TagsFrom (source : Text) : Nat → List Token → Prop
  | done {position : Nat} : (∀ token, ¬ FirstItem source position token.span.start (.ok token)) →
      TagsFrom source position []
  | tag {position : Nat} {token : Token} {tokens : List Token} :
      FirstItem source position token.span.start (.ok token) → TagsFrom source token.span.stop tokens →
      TagsFrom source position (token :: tokens)

def ClosingInReach (tokens : List Token) : Prop :=
  ∀ token ∈ tokens, token.tag.kind = .closing → token.span.stop ≤ Span.maxOffset

theorem itemAt_span {source : Text} {offset : Nat} {token : Token} (stands : ItemAt source offset (.ok token)) :
    token.span.start = offset ∧ offset < token.span.stop ∧ token.span.stop ≤ source.bytes := by
  cases stands with
  | @tagged before head rest tag cut stands =>
    obtain ⟨split, _⟩ := render_of_stands stands
    have positive : tag.render.bytes ≠ 0 := fun empty => render_ne_nil tag (Text.bytes_eq_zero.mp empty)
    have size : source.bytes = before.bytes + (tag.render.bytes + rest.bytes) := by
      rw [cut, split, Text.bytes_append, Text.bytes_append]
    exact ⟨rfl, by dsimp only; omega, Nat.sub_le _ _⟩

theorem FirstItem.order {source : Text} {position offset : Nat} {token : Token}
    (first : FirstItem source position offset (.ok token)) :
    position ≤ token.span.start ∧ token.span.start < token.span.stop ∧ token.span.stop ≤ source.bytes := by
  obtain ⟨start, nonempty, inside⟩ := itemAt_span first.stands
  have reached := first.reached
  exact ⟨by omega, by omega, inside⟩

theorem FirstItem.later {source : Text} {position later offset : Nat} {item : Except Unterminated Token}
    (first : FirstItem source position offset item) (order : position ≤ later) (reached : later ≤ offset) :
    FirstItem source later offset item :=
  ⟨reached, first.stands, fun other found late => first.least other found (Nat.le_trans order late)⟩

section
variable {source : Text} {position : Nat} {tokens : List Token}

theorem tagsFrom_exists (source : Text) (position : Nat) : ∃ tokens, TagsFrom source position tokens := by
  -- Each tag ends behind the position and inside the source.
  induction left : source.bytes - position using Nat.strongRecOn generalizing position with
  | ind n ih =>
    by_cases more : ∃ token, FirstItem source position token.span.start (.ok token)
    · obtain ⟨token, first⟩ := more
      obtain ⟨reached, nonempty, inside⟩ := first.order
      obtain ⟨tokens, tags⟩ := ih (source.bytes - token.span.stop) (by omega) token.span.stop rfl
      exact ⟨token :: tokens, .tag first tags⟩
    · exact ⟨[], .done fun token first => more ⟨token, first⟩⟩

theorem TagsFrom.order (tags : TagsFrom source position tokens) :
    ∀ token ∈ tokens, position ≤ token.span.start ∧ token.span.start < token.span.stop := by
  induction tags with
  | done => simp
  | @tag position token tokens first tags ih =>
    obtain ⟨reached, nonempty, _⟩ := first.order
    intro other member
    cases List.mem_cons.mp member with
    | inl same => exact same ▸ ⟨reached, nonempty⟩
    | inr later =>
      obtain ⟨behind, nonempty⟩ := ih other later
      exact ⟨by omega, nonempty⟩

theorem TagsFrom.pairwise (tags : TagsFrom source position tokens) :
    tokens.Pairwise fun one two => one.span.stop ≤ two.span.start := by
  induction tags with
  | done => exact List.Pairwise.nil
  | tag _ tags ih => exact List.pairwise_cons.mpr ⟨fun token member => (tags.order token member).1, ih⟩

end

namespace Scanner

/-! ### One call -/

/-- A call that yields a tag leaves the scan at the true end of the tag, behind the place where it began. -/
def Moves (scanner : Scanner) : Prop :=
  ∀ yielded, scanner.next.item? = some (.ok yielded) →
    ∃ token, FirstItem scanner.source scanner.position token.span.start (.ok token) ∧ yielded = token.clamp ∧
      scanner.advance.position = token.span.stop ∧ scanner.position < scanner.advance.position

def settle (scanner : Scanner) (found : Found) : Step :=
  let base := scanner.source.bytes - (scanner.source.dropBytes scanner.position).bytes
  match found with
  | .tagged gap tag rest =>
    let token : Token := ⟨tag, ⟨base + gap.bytes, scanner.source.bytes - rest.bytes⟩⟩
    .token gap token.clamp token.resume
  | .stuck gap name => .failure gap ⟨name, .of (base + gap.bytes) scanner.source.bytes⟩
  | .none => .done (scanner.source.dropBytes scanner.position)

theorem call_halts (source : Text) (position : Nat) : ∃ found,
    Loop.run ((source.length + 1) * (source.length + 1)) (.outside [] (source.dropBytes position)) = some found ∧
      (source.count '{' ≤ Span.maxOffset → next { source, position } = settle { source, position } found) := by
  obtain ⟨before, cut, _⟩ := Text.dropBytes_first_cut position source
  have shorter : (source.dropBytes position).length ≤ source.length := by
    have size := congrArg List.length cut
    rw [List.length_append] at size
    omega
  have fewer : (source.dropBytes position).count '{' ≤ source.count '{' := by
    have count := congrArg (List.count '{') cut
    rw [List.count_append] at count
    omega
  have enough := Nat.mul_le_mul (Nat.succ_le_succ shorter) (Nat.succ_le_succ shorter)
  obtain ⟨found, left, finds⟩ := @Loop.run_loop _ (.outside [] (source.dropBytes position)) enough
  refine ⟨found, left, ?_⟩
  intro few
  rw [finds (Nat.le_trans fewer few), Loop.result, extend_none]
  simp only [next, settle, Bool.false_eq_true, if_false]
  cases find (source.dropBytes position) <;> rfl

theorem call_cases (source : Text) (position : Nat) :
    (∃ token gap, FirstItem source position token.span.start (.ok token) ∧
      next { source, position } = .token gap token.clamp token.resume) ∨
    ((∀ token, ¬ FirstItem source position token.span.start (.ok token)) ∧
      ∀ yielded, (next { source, position }).item? ≠ some (.ok yielded)) := by
  obtain ⟨before, cut, cases⟩ := stepAt_cases source position
  rw [next_eq_clamp cut rfl]
  generalize stepAt source before (source.dropBytes position) = step at cases
  rcases cases with ⟨offset, item, first, yields⟩ | ⟨yields, absent⟩
  · cases step with
    | token gap found stop =>
      cases yields
      obtain ⟨start, _⟩ := itemAt_span first.stands
      exact .inl ⟨found, gap, start ▸ first, rfl⟩
    | failure gap broken =>
      cases yields
      refine .inr ⟨fun token other => ?_, by simp [Step.clamp, Step.item?]⟩
      cases firstItem_unique first other
    | done tail => cases yields
  · refine .inr ⟨fun token first => absent _ _ first.reached first.stands, ?_⟩
    cases step with
    | token gap found stop => cases yields
    | failure gap broken => cases yields
    | done tail => simp [Step.clamp, Step.item?]

theorem resume_of_reach {token : Token} (reach : token.tag.kind = .closing → token.span.stop ≤ Span.maxOffset) :
    token.resume = token.span.stop := by
  unfold Token.resume
  split
  · next closing => exact Span.clamp_of_le (reach closing)
  · rfl

theorem reach_of_resume {token : Token} (same : token.resume = token.span.stop) :
    token.tag.kind = .closing → token.span.stop ≤ Span.maxOffset := by
  intro closing
  rw [Token.resume, if_pos closing] at same
  exact same ▸ Nat.min_le_right _ _

section
variable {source : Text} {position : Nat} {token : Token}

theorem next_of_first (first : FirstItem source position token.span.start (.ok token)) :
    ∃ gap, next { source, position } = .token gap token.clamp token.resume := by
  rcases call_cases source position with ⟨other, gap, second, step⟩ | ⟨absent, _⟩
  · cases firstItem_unique first second
    exact ⟨gap, step⟩
  · exact absurd first (absent token)

theorem advance_of_first (first : FirstItem source position token.span.start (.ok token)) :
    advance { source, position } = { source, position := token.resume } := by
  obtain ⟨gap, step⟩ := next_of_first first
  rw [advance, step]
  rfl

theorem moves_iff_of_first (first : FirstItem source position token.span.start (.ok token)) :
    Moves { source, position } ↔ (token.tag.kind = .closing → token.span.stop ≤ Span.maxOffset) := by
  obtain ⟨gap, step⟩ := next_of_first first
  obtain ⟨reached, nonempty, _⟩ := first.order
  have behind := advance_of_first first
  constructor
  · intro moves
    obtain ⟨other, second, _, place, _⟩ := moves token.clamp (by rw [step]; rfl)
    cases firstItem_unique first second
    rw [behind] at place
    exact reach_of_resume place
  · intro reach yielded yields
    rw [step] at yields
    cases yields
    rw [behind, resume_of_reach reach]
    exact ⟨token, first, rfl, rfl, by dsimp only; omega⟩

end

/-! ### All calls -/

theorem repeat_advance (asked : Nat) (scanner : Scanner) :
    Nat.repeat advance (asked + 1) scanner = Nat.repeat advance asked scanner.advance := by
  induction asked with
  | zero => rfl
  | succ asked ih => rw [Nat.repeat, ih, Nat.repeat]

section
variable {source : Text} {position : Nat} {tokens : List Token}

theorem calls_of_done (absent : ∀ token, ¬ FirstItem source position token.span.start (.ok token)) (asked : Nat) :
    (∀ yielded, (Nat.repeat advance asked { source, position }).next.item? ≠ some (.ok yielded)) ∧
      (0 < asked → (Nat.repeat advance asked { source, position }).next.item? = none) := by
  have silent : ∀ yielded, (next { source, position }).item? ≠ some (.ok yielded) := by
    rcases call_cases source position with ⟨token, gap, first, _⟩ | ⟨_, silent⟩
    · exact absurd first (absent token)
    · exact silent
  cases asked with
  | zero => exact ⟨silent, fun positive => absurd positive (Nat.lt_irrefl 0)⟩
  | succ asked =>
    have nothing := finished_yields_nothing (finished_of_no_token silent) asked
    rw [repeat_advance, nothing]
    exact ⟨fun yielded => (Option.some_ne_none _).symm, fun _ => rfl⟩

theorem moves_iff_of_tags (tags : TagsFrom source position tokens) :
    (∀ asked, Moves (Nat.repeat advance asked { source, position })) ↔ ClosingInReach tokens := by
  induction tags with
  | @done position absent =>
    refine ⟨fun _ => List.forall_mem_nil _, fun _ asked yielded yields => ?_⟩
    exact absurd yields ((calls_of_done absent asked).1 yielded)
  | @tag position token tokens first tags ih =>
    have behind := advance_of_first first
    have here := moves_iff_of_first first
    constructor
    · intro moves
      have reach := here.mp (moves 0)
      rw [resume_of_reach reach] at behind
      have later := ih.mp fun asked => behind ▸ repeat_advance asked _ ▸ moves (asked + 1)
      exact List.forall_mem_cons.mpr ⟨reach, later⟩
    · intro reach asked
      obtain ⟨reach, later⟩ := List.forall_mem_cons.mp reach
      rw [resume_of_reach reach] at behind
      cases asked with
      | zero => exact here.mpr reach
      | succ asked =>
        rw [repeat_advance, behind]
        exact ih.mpr later asked

theorem calls_of_tags (tags : TagsFrom source position tokens) (reach : ClosingInReach tokens) (asked : Nat) :
    (∀ yielded, (Nat.repeat advance asked { source, position }).next.item? = some (.ok yielded) ↔
      tokens[asked]?.map Token.clamp = some yielded) ∧
    (tokens.length < asked → (Nat.repeat advance asked { source, position }).next.item? = none) := by
  induction tags generalizing asked with
  | @done position absent =>
    obtain ⟨silent, ended⟩ := calls_of_done absent asked
    exact ⟨fun yielded => ⟨fun yields => absurd yields (silent yielded), fun yields => by cases yields⟩, ended⟩
  | @tag position token tokens first tags ih =>
    obtain ⟨reach, later⟩ := List.forall_mem_cons.mp reach
    cases asked with
    | zero =>
      obtain ⟨gap, step⟩ := next_of_first first
      refine ⟨fun yielded => ?_, fun behind => absurd behind (Nat.not_lt_zero _)⟩
      rw [Nat.repeat, step]
      simp [Step.item?]
    | succ asked =>
      rw [repeat_advance, advance_of_first first, resume_of_reach reach]
      obtain ⟨yields, ended⟩ := ih later asked
      exact ⟨yields, fun behind => ended (Nat.lt_of_succ_lt_succ behind)⟩

end

/-! ### Sources past the greatest offset -/

theorem bytes_blanks (count : Nat) : Text.bytes (List.replicate count ' ') = count := by
  induction count with
  | zero => rfl
  | succ count ih =>
    have one : (' ' : Char).utf8Size = 1 := by decide
    rw [List.replicate_succ, Text.bytes, ih, one, Nat.add_comm]

theorem silent_blanks (count : Nat) (head : Text) : Silent (List.replicate count ' ') head := by
  induction count with
  | zero => exact silent_nil head
  | succ count ih =>
    rw [List.replicate_succ]
    exact silent_cons.mpr ⟨by simp [read], ih⟩

theorem firstItem_behind_blanks {source before rest : Text} {tag : Tag} (count : Nat)
    (cut : source = before ++ (List.replicate count ' ' ++ (tag.render ++ rest)))
    (stands : Stands (tag.render ++ rest) (.tagged tag rest)) :
    FirstItem source before.bytes (before.bytes + count)
      (.ok ⟨tag, ⟨before.bytes + count, before.bytes + count + tag.render.bytes⟩⟩) := by
  have place : (before ++ List.replicate count ' ').bytes = before.bytes + count := by
    rw [Text.bytes_append, bytes_blanks]
  have stop : source.bytes - rest.bytes = before.bytes + count + tag.render.bytes := by
    rw [cut, Text.bytes_append, Text.bytes_append, Text.bytes_append, bytes_blanks]
    omega
  have item := ItemAt.tagged (cut.trans (List.append_assoc _ _ _).symm) stands
  have first := firstItem_of_silent cut (silent_blanks count _) item (Nat.le_refl _) fun _ _ late _ => late
  rwa [place, stop] at first

theorem clamp_of_ge {offset : Nat} (past : Span.maxOffset ≤ offset) : Span.clamp offset = Span.maxOffset :=
  Nat.min_eq_right past

theorem stands_closing {name : Text} (named : Text.IsName name) (rest : Text) :
    Stands (render ⟨.closing, name, []⟩ ++ rest) (.tagged ⟨.closing, name, []⟩ rest) := by
  have text : render ⟨.closing, name, []⟩ ++ rest = '<' :: '/' :: (name ++ '>' :: rest) := by simp [render]
  rw [text]
  exact .closing named

theorem repeat_at_limit {source : Text} {token : Token}
    (first : FirstItem source Span.maxOffset token.span.start (.ok token)) (closing : token.tag.kind = .closing)
    (asked : Nat) :
    Nat.repeat advance asked { source, position := Span.maxOffset } = { source, position := Span.maxOffset } := by
  induction asked with
  | zero => rfl
  | succ asked ih =>
    obtain ⟨reached, nonempty, _⟩ := first.order
    rw [Nat.repeat, ih, advance_of_first first, Token.resume, if_pos closing, clamp_of_ge (by omega)]

theorem yields_forever {source : Text} {position : Nat} {token : Token}
    (first : FirstItem source position token.span.start (.ok token)) (closing : token.tag.kind = .closing)
    (early : position ≤ Span.maxOffset) (past : Span.maxOffset ≤ token.span.start) (asked : Nat) :
    (Nat.repeat advance asked { source, position }).next.item? = some (.ok token.clamp) := by
  obtain ⟨_, nonempty, _⟩ := first.order
  cases asked with
  | zero =>
    obtain ⟨gap, step⟩ := next_of_first first
    rw [Nat.repeat, step]
    rfl
  | succ asked =>
    have again := first.later early past
    obtain ⟨gap, step⟩ := next_of_first again
    rw [repeat_advance, advance_of_first first, Token.resume, if_pos closing, clamp_of_ge (by omega),
      repeat_at_limit again closing, step]
    rfl

/-! ### The whole scan -/

/-- Every call is over within a bound, also with the depth of braces in 32 bits; its loop finds what `next` finds if
the source has no more `{` than the greatest offset. What follows is about `next`, whose depth has no bound. The tags
of the source are apart from each other, and the calls leave the scan at the true ends of the tags exactly if no
closing tag ends past the greatest offset. Then they yield each tag once, in order, and after as many calls as there
are tags no other tag. -/
theorem scan_moves_iff (source : Text) :
    (∀ position, ∃ found,
      Loop.run ((source.length + 1) * (source.length + 1)) (.outside [] (source.dropBytes position)) = some found ∧
        (source.count '{' ≤ Span.maxOffset → next { source, position } = settle { source, position } found)) ∧
    (∃ tokens, TagsFrom source 0 tokens) ∧
    ∀ tokens, TagsFrom source 0 tokens →
      (∀ token ∈ tokens, token.span.start < token.span.stop) ∧
      tokens.Pairwise (fun one two => one.span.stop ≤ two.span.start) ∧
      ((∀ asked, Moves (Nat.repeat advance asked { source })) ↔ ClosingInReach tokens) ∧
      (ClosingInReach tokens → ∀ asked,
        (∀ yielded, (Nat.repeat advance asked { source }).next.item? = some (.ok yielded) ↔
          tokens[asked]?.map Token.clamp = some yielded) ∧
        (tokens.length < asked → (Nat.repeat advance asked { source }).next.item? = none)) := by
  refine ⟨call_halts source, tagsFrom_exists source 0, ?_⟩
  intro tokens tags
  exact ⟨fun token member => (tags.order token member).2, tags.pairwise, moves_iff_of_tags tags, calls_of_tags tags⟩

/-- `</b>`, and far behind it `<a/>` past the greatest offset. -/
def lateTag : Text :=
  render ⟨.closing, ['b'], []⟩ ++ (List.replicate Span.maxOffset ' ' ++ (render ⟨.selfClosing, ['a'], []⟩ ++ []))

theorem bytes_lateTag : lateTag.bytes = 4294967303 := by
  rw [lateTag, Text.bytes_append, Text.bytes_append, bytes_blanks]
  decide

def lateTokens : List Token :=
  [⟨⟨.closing, ['b'], []⟩, ⟨0, 4⟩⟩, ⟨⟨.selfClosing, ['a'], []⟩, ⟨4294967299, 4294967303⟩⟩]

theorem tags_lateTag : TagsFrom lateTag 0 lateTokens := by
  have width : (render ⟨.closing, ['b'], []⟩).bytes = 4 := by decide
  have closes := stands_closing (by decide : Text.IsName ['b'])
  have closed : Stands (render ⟨.selfClosing, ['a'], []⟩ ++ []) (.tagged ⟨.selfClosing, ['a'], []⟩ []) :=
    read_eq_iff.mpr ⟨by decide, by simp⟩
  have one := @firstItem_behind_blanks lateTag [] _ _ 0 rfl (closes _)
  have two := @firstItem_behind_blanks lateTag _ _ _ Span.maxOffset rfl closed
  rw [width] at two
  refine .tag one (.tag two (.done ?_))
  intro token first
  have order := first.order
  rw [bytes_lateTag] at order
  dsimp only at order
  omega

theorem scan_moves_lateTag :
    TagsFrom lateTag 0 lateTokens ∧ ClosingInReach lateTokens ∧
    (∀ asked, Moves (Nat.repeat advance asked { source := lateTag })) ∧
    (Nat.repeat advance 1 { source := lateTag }).next.item? =
      some (.ok ⟨⟨.selfClosing, ['a'], []⟩, ⟨4294967295, 4294967295⟩⟩) ∧
    (Nat.repeat advance 3 { source := lateTag }).next.item? = none := by
  have reach : ClosingInReach lateTokens := by simp [ClosingInReach, lateTokens, Span.maxOffset]
  obtain ⟨_, _, moves, yields⟩ := (scan_moves_iff lateTag).2.2 _ tags_lateTag
  exact ⟨tags_lateTag, reach, moves.mpr reach, ((yields reach 1).1 _).mpr (by decide), (yields reach 3).2 (by decide)⟩

def lateClosing : Text := List.replicate Span.maxOffset ' ' ++ render ⟨.closing, ['a'], []⟩

/-- The scan of four gigabytes and a closing tag never ends. -/
theorem closing_yielded_again :
    lateClosing.bytes = 4294967299 ∧
    ∀ asked, (Nat.repeat advance asked { source := lateClosing }).next.item? =
      some (.ok ⟨⟨.closing, ['a'], []⟩, ⟨4294967295, 4294967295⟩⟩) := by
  have cut : lateClosing = [] ++ (List.replicate Span.maxOffset ' ' ++ (render ⟨.closing, ['a'], []⟩ ++ [])) := by
    rw [List.append_nil, List.nil_append, lateClosing]
  have first := firstItem_behind_blanks Span.maxOffset cut (stands_closing (by decide) [])
  rw [Text.bytes, Nat.zero_add] at first
  refine ⟨?_, ?_⟩
  · rw [lateClosing, Text.bytes_append, bytes_blanks]
    decide
  · exact @yields_forever _ _ ⟨_, ⟨_, _⟩⟩ first rfl (Nat.zero_le _) (Nat.le_refl _)

end Scanner

end TagCalls.Tag
