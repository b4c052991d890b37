import TagCalls.Proofs.Tag.Slice

/-!
The pieces of a scan, laid out in the source: behind each gap stands a tag under its span, the next gap begins
where the tag ends, and behind the last tag the rest of the source is left. Main statement: `laid_scan`.
-/
namespace TagCalls.Tag

/-- Pieces that stand in the source one behind the other, behind `before` and with `left` behind them. -/
inductive Laid (source : Text) : Text → List (Text × Token) → Text → Prop
  | done {before left : Text} : source = before ++ left → Laid source before [] left
  | piece {before gap left : Text} {tag : Tag} {pieces : List (Text × Token)} : tag.WellFormed →
      Laid source (before ++ gap ++ tag.render) pieces left →
      Laid source before ((gap, ⟨tag, ⟨(before ++ gap).bytes, (before ++ gap ++ tag.render).bytes⟩⟩) :: pieces) left

namespace Scanner

theorem run_of_find {source before ahead gap rest : Text} {tag : Tag} (small : source.bytes ≤ Span.maxOffset)
    (cut : source = before ++ ahead) (found : find ahead = .tagged gap tag rest) :
    tag.WellFormed ∧ source = before ++ gap ++ tag.render ++ rest ∧ rest.length < ahead.length ∧
      run { source, position := before.bytes } =
        (run { source, position := (before ++ gap ++ tag.render).bytes }).push gap
          ⟨tag, ⟨(before ++ gap).bytes, (before ++ gap ++ tag.render).bytes⟩⟩ := by
  have finds := finds_find ahead
  rw [found] at finds
  cases finds with
  | @tagged gap head rest tag silent stands =>
    have ⟨split, formed⟩ := render_of_stands stands
    have whole : source = before ++ gap ++ tag.render ++ rest := by
      rw [cut, split]
      simp only [List.append_assoc]
    have stop : source.bytes - rest.bytes = (before ++ gap ++ tag.render).bytes := by
      rw [whole, Text.bytes_append _ rest]
      omega
    have shorter : rest.length < (gap ++ head).length := by
      have positive := List.length_pos_iff.mpr (render_ne_nil tag)
      rw [split, List.length_append, List.length_append]
      omega
    have step := run_of_found small cut found
    rw [stop] at step
    exact ⟨formed, whole, shorter, step⟩

theorem laid_run {source : Text} (small : source.bytes ≤ Span.maxOffset) (before ahead : Text)
    (cut : source = before ++ ahead) :
    ∃ left, Laid source before (run { source, position := before.bytes }).pieces left ∧
      ∀ tail, (run { source, position := before.bytes }).ending = .ok tail → tail = left := by
  -- Each tag takes something away from the text ahead.
  induction size : ahead.length using Nat.strongRecOn generalizing before ahead with
  | ind n ih =>
    have step := next_at_cut small cut
    rw [stepAt] at step
    cases found : find ahead with
    | tagged gap tag rest =>
      obtain ⟨formed, whole, shorter, run⟩ := run_of_find small cut found
      obtain ⟨left, laid, ended⟩ := ih rest.length (size ▸ shorter) (before ++ gap ++ tag.render) rest whole rfl
      rw [run]
      exact ⟨left, .piece formed laid, ended⟩
    | stuck gap name =>
      rw [found] at step
      rw [run_of_failure step]
      exact ⟨ahead, .done cut, fun _ ended => by cases ended⟩
    | none =>
      rw [found] at step
      rw [run_of_done step]
      exact ⟨ahead, .done cut, fun _ ended => (Except.ok.inj ended).symm⟩

end Scanner

theorem laid_scan {source : Text} (small : source.bytes ≤ Span.maxOffset) :
    ∃ left, Laid source [] (scan source).pieces left ∧ ∀ tail, (scan source).ending = .ok tail → tail = left :=
  Scanner.laid_run small [] source rfl

section
variable {source before left : Text} {pieces : List (Text × Token)}

theorem Laid.split (laid : Laid source before pieces left) : ∃ ahead, source = before ++ ahead := by
  induction laid with
  | done split => exact ⟨_, split⟩
  | @piece before gap left tag pieces _ _ ih =>
    have ⟨ahead, split⟩ := ih
    exact ⟨gap ++ (tag.render ++ ahead), by rw [split]; simp only [List.append_assoc]⟩

theorem Laid.slice?_gap {gap : Text} {token : Token} (laid : Laid source before ((gap, token) :: pieces) left) :
    source.slice? ⟨before.bytes, token.span.start⟩ = some gap := by
  cases laid with
  | piece _ later =>
    have ⟨ahead, split⟩ := later.split
    rw [split, List.append_assoc (before ++ gap)]
    exact Text.slice?_append before gap _

theorem Laid.slice?_left (laid : Laid source before [] left) :
    source.slice? ⟨before.bytes, source.bytes⟩ = some left := by
  cases laid with
  | done split =>
    have slice := Text.slice?_append before left []
    rwa [List.append_nil, ← split] at slice

theorem Laid.wellFormed (laid : Laid source before pieces left) :
    ∀ token ∈ pieces.map (·.2), token.tag.WellFormed ∧ before.bytes ≤ token.span.start := by
  induction laid with
  | done => simp
  | @piece before gap left tag pieces formed _ ih =>
    intro token member
    cases List.mem_cons.mp member with
    | inl same =>
      rw [same]
      exact ⟨formed, by simp only [Text.bytes_append]; omega⟩
    | inr later =>
      have ⟨formed, behind⟩ := ih token later
      simp only [Text.bytes_append] at behind
      exact ⟨formed, by omega⟩

theorem Laid.pairwise (laid : Laid source before pieces left) :
    (pieces.map (·.2)).Pairwise fun one two => one.span.stop ≤ two.span.start := by
  induction laid with
  | done => exact List.Pairwise.nil
  | piece _ laid ih => exact List.pairwise_cons.mpr ⟨fun token member => (laid.wellFormed token member).2, ih⟩

theorem Laid.splice (laid : Laid source before pieces left) {ahead : Text} (cut : source = before ++ ahead) :
    Text.splice before.bytes ahead ((pieces.map (·.2)).map fun token => (token.span, token.tag.render)) =
      some ahead := by
  induction laid generalizing ahead with
  | done => rfl
  | @piece before gap left tag pieces _ later ih =>
    have ⟨rest, split⟩ := later.split
    have whole : before ++ ahead = before ++ (gap ++ (tag.render ++ rest)) := by
      rw [← cut, split]
      simp only [List.append_assoc]
    have more := ih split
    rw [List.append_cancel_left whole, List.map_cons, List.map_cons]
    simp only [Text.bytes_append] at more ⊢
    exact Text.splice_skip (Text.splice_head more)

end

end TagCalls.Tag
