import TagCalls.Lowering.Nested
import TagCalls.Proofs.Lowering.Balance
import TagCalls.Proofs.Tag.Pieces

/-!
The spans of a scan as places to cut the source. Every tag is written under its span, the spans come one behind the
other, and what stands between them can be cut out; so a lowering that writes its result from such slices never
fails to get one, and gives what the lowering of nested tags gives. Main statement: `spans_lossless`.
-/
namespace TagCalls.Lowering

open Tag (Token Laid)

/-- The lowering with a cursor in the source: before a tag it writes what stands there since `last`, the end of the
tag before. It is `none` where that is no part of the source. -/
def lowerSlices (target source : Text) (ending : Except Tag.Unterminated Text) :
    Nat → Nesting → List Token → Option (Except TranspileError Text)
  | last, nesting, [] =>
    match ending with
    | .error failure => some (.error (.unterminated failure.name failure.span))
    | .ok _ => do
      let tail ← source.slice? ⟨last, source.bytes⟩
      match nesting with
      | [] => return .ok tail
      | opener :: _ => return .error (.unclosed opener.tag.name opener.span)
  | last, nesting, token :: tokens => do
    let gap ← source.slice? ⟨last, token.span.start⟩
    match nesting.step token with
    | .error error => return .error error
    | .ok next =>
      let behind ← lowerSlices target source ending token.span.stop next tokens
      return (gap ++ token.tag.call target ++ ·) <$> behind

def finish (target : Text) (pieces : List (Text × Token)) (ending : Except Tag.Unterminated Text)
    (nesting : Nesting) : Except TranspileError Text :=
  match ending, nesting with
  | .error failure, _ => .error (.unterminated failure.name failure.span)
  | .ok _, opener :: _ => .error (.unclosed opener.tag.name opener.span)
  | .ok tail, [] => .ok (emit target pieces tail)

theorem nested_eq_finish (target source : Text) :
    nested target source = Nesting.run [] (Tag.scan source).tokens >>=
      finish target (Tag.scan source).pieces (Tag.scan source).ending := rfl

theorem finish_cons (target gap : Text) (token : Token) (pieces : List (Text × Token))
    (ending : Except Tag.Unterminated Text) (nesting : Nesting) :
    finish target ((gap, token) :: pieces) ending nesting =
      (gap ++ token.tag.call target ++ ·) <$> finish target pieces ending nesting := by
  cases ending with
  | error failure => rfl
  | ok tail =>
    cases nesting with
    | nil =>
      have written : emit target ((gap, token) :: pieces) tail =
          gap ++ token.tag.call target ++ emit target pieces tail := by
        simp [emit]
      exact congrArg Except.ok written
    | cons opener outer => rfl

/-! ### One tag, and all tags -/

section
variable {target source : Text} {ending : Except Tag.Unterminated Text} {last : Nat} {nesting : Nesting}

theorem lowerSlices_end {tail : Text} (slice : source.slice? ⟨last, source.bytes⟩ = some tail) :
    lowerSlices target source (.ok tail) last nesting [] = some (finish target [] (.ok tail) nesting) := by
  simp only [lowerSlices, slice]
  cases nesting <;> rfl

theorem lowerSlices_refused {gap : Text} {token : Token} {tokens : List Token} {error : TranspileError}
    (slice : source.slice? ⟨last, token.span.start⟩ = some gap) (step : nesting.step token = .error error) :
    lowerSlices target source ending last nesting (token :: tokens) = some (.error error) := by
  simp only [lowerSlices, slice, step]
  rfl

theorem lowerSlices_step {gap : Text} {token : Token} {tokens : List Token} {next : Nesting}
    {behind : Except TranspileError Text} (slice : source.slice? ⟨last, token.span.start⟩ = some gap)
    (step : nesting.step token = .ok next)
    (later : lowerSlices target source ending token.span.stop next tokens = some behind) :
    lowerSlices target source ending last nesting (token :: tokens) =
      some ((gap ++ token.tag.call target ++ ·) <$> behind) := by
  simp only [lowerSlices, slice, step, later]
  rfl

end

theorem lowerSlices_of_laid {target source before left : Text} {pieces : List (Text × Token)}
    {ending : Except Tag.Unterminated Text} (laid : Laid source before pieces left)
    (ended : ∀ tail, ending = .ok tail → tail = left) (nesting : Nesting) :
    lowerSlices target source ending before.bytes nesting (pieces.map (·.2)) =
      some (nesting.run (pieces.map (·.2)) >>= finish target pieces ending) := by
  induction laid generalizing nesting with
  | @done before left split =>
    cases ending with
    | error failure => rfl
    | ok tail =>
      rw [ended tail rfl]
      exact lowerSlices_end (Laid.done split).slice?_left
  | @piece before gap left tag pieces formed later ih =>
    have slice := (Laid.piece formed later).slice?_gap
    rw [List.map_cons]
    generalize token_eq : (Token.mk tag ⟨(before ++ gap).bytes, (before ++ gap ++ tag.render).bytes⟩) = token at slice ⊢
    cases step : nesting.step token with
    | error error =>
      rw [lowerSlices_refused slice step, Nesting.run, step]
      rfl
    | ok next =>
      have stop : token.span.stop = (before ++ gap ++ tag.render).bytes := by rw [← token_eq]
      have behind := ih ended next
      rw [← stop] at behind
      rw [lowerSlices_step slice step behind, run_cons nesting next token _ step]
      cases next.run (pieces.map (·.2)) with
      | error error => rfl
      | ok final => exact congrArg some (finish_cons target gap token pieces ending final).symm

/-! ### The spans -/

/-- A tag that is written in the source under its span. The slice ends between characters at both ends. -/
structure Written (source : Text) (token : Token) : Prop where
  nonempty : token.span.start < token.span.stop
  inside : token.span.stop ≤ source.bytes
  named : Text.IsName token.tag.name
  stops : Text.NameStops token.tag.raw
  closing : token.tag.kind = .closing → token.tag.raw = []
  slice : source.slice? token.span = some token.tag.render

theorem written_of_mem {source : Text} (small : source.bytes ≤ Span.maxOffset) {token : Token}
    (member : token ∈ (Tag.scan source).tokens) : Written source token := by
  have ⟨left, laid, _⟩ := Tag.laid_scan small
  have ⟨formed, _⟩ := laid.wellFormed token member
  have slice := Tag.slice?_of_mem_tokens source token small member
  have ⟨before, after, cut, place⟩ := Text.slice?_eq_some_iff.mp slice
  have positive : token.tag.render.bytes ≠ 0 := fun empty => Tag.render_ne_nil _ (Text.bytes_eq_zero.mp empty)
  have size := congrArg Text.bytes cut
  simp only [Text.bytes_append] at size place
  refine ⟨?_, ?_, formed.named, formed.stops, formed.closing, slice⟩
  · rw [place]
    dsimp only
    omega
  · rw [place]
    dsimp only
    omega

/-- The tokens of a scan are tags written under their spans, which are in order and do not overlap. Writing each tag
again between what stands outside the spans gives the source, and the lowering of nested tags can be done with
slices of the source, none of which is out of range or splits a character. -/
theorem spans_lossless (target source : Text) (small : source.bytes ≤ Span.maxOffset) :
    (∀ token ∈ (Tag.scan source).tokens, Written source token) ∧
    (Tag.scan source).tokens.Pairwise (fun one two => one.span.stop ≤ two.span.start) ∧
    Text.splice 0 source ((Tag.scan source).tokens.map fun token => (token.span, token.tag.render)) = some source ∧
    lowerSlices target source (Tag.scan source).ending 0 [] (Tag.scan source).tokens =
      some (nested target source) := by
  have ⟨left, laid, ended⟩ := Tag.laid_scan small
  refine ⟨fun token member => written_of_mem small member, laid.pairwise, laid.splice rfl, ?_⟩
  rw [nested_eq_finish]
  exact lowerSlices_of_laid laid ended []

def quotedEnd : Text := "é<p a='>'>ü</p>ö<b".toList

theorem tokens_quotedEnd :
    (Tag.scan quotedEnd).tokens =
      [⟨⟨.opening, ['p'], " a='>'".toList⟩, ⟨2, 11⟩⟩, ⟨⟨.closing, ['p'], []⟩, ⟨13, 17⟩⟩] := by
  have walk : Tag.Walk quotedEnd
      [.plain 'é', .found ⟨.opening, ['p'], " a='>'".toList⟩, .plain 'ü', .found ⟨.closing, ['p'], []⟩, .plain 'ö',
        .plain '<', .plain 'b'] none :=
    .plain rfl (.tagged rfl (.plain rfl (.tagged rfl (.plain rfl (.plain rfl (.plain rfl .done))))))
  exact (Tag.scan_of_walk (by decide) walk).tokens

theorem spans_lossless_quotedEnd :
    quotedEnd.bytes ≤ Span.maxOffset ∧
      Written quotedEnd ⟨⟨.opening, ['p'], " a='>'".toList⟩, ⟨2, 11⟩⟩ ∧
      Text.splice 0 quotedEnd [(⟨2, 11⟩, "<p a='>'>".toList), (⟨13, 17⟩, "</p>".toList)] = some quotedEnd := by
  have small : quotedEnd.bytes ≤ Span.maxOffset := by decide
  have ⟨written, _, spliced, _⟩ := spans_lossless ['h'] quotedEnd small
  rw [tokens_quotedEnd] at written spliced
  exact ⟨small, written _ List.mem_cons_self, spliced⟩

end TagCalls.Lowering
