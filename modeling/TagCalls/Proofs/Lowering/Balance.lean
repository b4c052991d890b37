import TagCalls.Lowering.Nested
import TagCalls.Proofs.Tag.Walk

/-!
Balanced tags: every closing tag closes the nearest tag that is still open and has its name, and no
tag stays open. The lowering of nested tags succeeds exactly on scans of this form, and then its
result is the source with a call in the place of each tag.
-/
namespace TagCalls.Lowering

open Tag (Token)

/-- Words of opening and closing tags that match by name; self-closing tags may stand anywhere. -/
inductive Balanced : List Token → Prop
  | nil : Balanced []
  | selfClosing {token : Token} {rest : List Token} :
      token.tag.kind = .selfClosing → Balanced rest → Balanced (token :: rest)
  | pair {opener closer : Token} {inner rest : List Token} :
      opener.tag.kind = .opening → closer.tag.kind = .closing → opener.tag.name = closer.tag.name →
      Balanced inner → Balanced rest → Balanced (opener :: (inner ++ closer :: rest))

/-- What closes the open tags of a nesting from the innermost outwards, each behind a balanced word. -/
inductive Closes : Nesting → List Token → Prop
  | all {tokens : List Token} : Balanced tokens → Closes [] tokens
  | inner {opener closer : Token} {outer : Nesting} {inside rest : List Token} :
      Balanced inside → closer.tag.kind = .closing → opener.tag.name = closer.tag.name →
      Closes outer rest → Closes (opener :: outer) (inside ++ closer :: rest)

theorem balanced_append (first second : List Token) (one : Balanced first) (two : Balanced second) :
    Balanced (first ++ second) := by
  induction one with
  | nil => exact two
  | selfClosing kind _ ih => exact .selfClosing kind ih
  | pair opens closes same inner _ _ ih =>
    rw [List.cons_append, List.append_assoc, List.cons_append]
    exact .pair opens closes same inner ih

theorem closes_append (nesting : Nesting) (first second : List Token) (balanced : Balanced first)
    (closes : Closes nesting second) : Closes nesting (first ++ second) := by
  cases closes with
  | all rest => exact .all (balanced_append first second balanced rest)
  | inner inside kind same rest =>
    rw [← List.append_assoc]
    exact .inner (balanced_append _ _ balanced inside) kind same rest

/-! ### One tag of each kind -/

theorem step_selfClosing (nesting : Nesting) (token : Token) (kind : token.tag.kind = .selfClosing) :
    nesting.step token = .ok nesting := by
  simp [Nesting.step, kind]

theorem step_opening (nesting : Nesting) (token : Token) (kind : token.tag.kind = .opening) :
    nesting.step token = .ok (token :: nesting) := by
  simp [Nesting.step, kind]

theorem step_closing (opener token : Token) (outer : Nesting) (kind : token.tag.kind = .closing)
    (same : opener.tag.name = token.tag.name) : Nesting.step (opener :: outer) token = .ok outer := by
  simp [Nesting.step, kind, same]

theorem step_closing_inv (nesting outer : Nesting) (token : Token) (kind : token.tag.kind = .closing)
    (step : nesting.step token = .ok outer) :
    ∃ opener, nesting = opener :: outer ∧ opener.tag.name = token.tag.name := by
  cases nesting with
  | nil => simp [Nesting.step, kind] at step
  | cons opener inside =>
    by_cases same : opener.tag.name = token.tag.name
    · rw [step_closing opener token inside kind same] at step
      cases step
      exact ⟨opener, rfl, same⟩
    · simp [Nesting.step, kind, same] at step

theorem run_cons (nesting next : Nesting) (token : Token) (tokens : List Token)
    (step : nesting.step token = .ok next) :
    nesting.run (token :: tokens) = next.run tokens := by
  rw [Nesting.run, step]
  rfl

theorem run_cons_ok (nesting final : Nesting) (token : Token) (tokens : List Token)
    (finished : nesting.run (token :: tokens) = .ok final) :
    ∃ next, nesting.step token = .ok next ∧ next.run tokens = .ok final := by
  cases step : nesting.step token with
  | error error =>
    rw [Nesting.run, step] at finished
    cases finished
  | ok next =>
    rw [run_cons nesting next token tokens step] at finished
    exact ⟨next, rfl, finished⟩

/-! ### Whole runs -/

theorem run_balanced (nesting : Nesting) (tokens more : List Token) (balanced : Balanced tokens) :
    nesting.run (tokens ++ more) = nesting.run more := by
  induction balanced generalizing nesting more with
  | nil => rfl
  | @selfClosing token rest kind _ ih =>
    rw [List.cons_append, run_cons nesting nesting _ _ (step_selfClosing nesting token kind)]
    exact ih nesting more
  | @pair opener closer inner rest opens closes same _ _ innerRun restRun =>
    calc
      nesting.run (opener :: (inner ++ closer :: rest) ++ more)
          = Nesting.run (opener :: nesting) (inner ++ (closer :: (rest ++ more))) := by
        rw [List.cons_append, List.append_assoc, List.cons_append]
        exact run_cons nesting _ _ _ (step_opening nesting opener opens)
      _ = Nesting.run (opener :: nesting) (closer :: (rest ++ more)) := innerRun _ _
      _ = nesting.run (rest ++ more) := run_cons _ _ _ _ (step_closing opener closer nesting closes same)
      _ = nesting.run more := restRun nesting more

theorem closes_of_run (nesting : Nesting) (tokens : List Token) (finished : nesting.run tokens = .ok []) :
    Closes nesting tokens := by
  induction tokens generalizing nesting with
  | nil =>
    cases finished
    exact .all .nil
  | cons token tokens ih =>
    rcases run_cons_ok nesting [] token tokens finished with ⟨next, step, rest⟩
    have closes := ih next rest
    cases kind : token.tag.kind with
    | selfClosing =>
      rw [step_selfClosing nesting token kind] at step
      cases step
      exact closes_append nesting [token] tokens (.selfClosing kind .nil) closes
    | opening =>
      rw [step_opening nesting token kind] at step
      cases step
      cases closes with
      | @inner _ closer _ inside rest balanced closing same outer =>
        have whole := closes_append nesting _ _ (.pair kind closing same balanced .nil) outer
        simpa using whole
    | closing =>
      rcases step_closing_inv nesting next token kind step with ⟨opener, rfl, same⟩
      exact .inner .nil kind same closes

theorem run_nil_iff (tokens : List Token) : Nesting.run [] tokens = .ok [] ↔ Balanced tokens := by
  constructor
  · intro finished
    cases closes_of_run [] tokens finished with
    | all balanced => exact balanced
  · intro balanced
    have run := run_balanced [] tokens [] balanced
    rw [List.append_nil] at run
    exact run

/-! ### The lowering -/

theorem nested_eq_ok (target source out : Text) :
    nested target source = .ok out ↔ ∃ tail, (Tag.scan source).ending = .ok tail ∧
      Nesting.run [] (Tag.scan source).tokens = .ok [] ∧
      emit target (Tag.scan source).pieces tail = out := by
  unfold nested
  cases run : Nesting.run [] (Tag.scan source).tokens with
  | error error => simp [bind, Except.bind, run]
  | ok nesting =>
    cases ended : (Tag.scan source).ending with
    | error failure => simp [bind, Except.bind, run, ended]
    | ok tail =>
      cases nesting with
      | nil => simp [bind, Except.bind, run, ended]
      | cons opener outer => simp [bind, Except.bind, run, ended]

theorem nested_of_walk (target source : Text) (segments : List (Segment Tag))
    (small : source.bytes ≤ Span.maxOffset) (walk : Tag.Walk source segments none)
    (balanced : Balanced (Tag.tokensAt 0 segments)) :
    nested target source = .ok (Segment.join (Tag.call target) segments) := by
  have follows := Tag.scan_of_walk small walk
  rcases follows.done rfl with ⟨tail, ended, spelled⟩
  apply (nested_eq_ok target source _).mpr
  refine ⟨tail, ended, ?_, spelled (Tag.call target)⟩
  rw [follows.tokens]
  exact (run_nil_iff _).mpr balanced

/-- Nested tags are lowered exactly if the scan does not fail and its tags are balanced. The result is
the source with the text under each tag's span replaced by its call. -/
theorem nested_ok_iff_balanced (target source : Text) (small : source.bytes ≤ Span.maxOffset) :
    ((∃ out, nested target source = .ok out) ↔
      (∃ tail, (Tag.scan source).ending = .ok tail) ∧ Balanced (Tag.scan source).tokens) ∧
    ∀ out, nested target source = .ok out →
      Text.splice 0 source ((Tag.scan source).tokens.map fun token =>
        (token.span, token.tag.call target)) = some out := by
  constructor
  · constructor
    · intro success
      rcases success with ⟨out, lowered⟩
      rcases (nested_eq_ok target source out).mp lowered with ⟨tail, ended, run, _⟩
      exact ⟨⟨tail, ended⟩, (run_nil_iff _).mp run⟩
    · intro condition
      rcases condition with ⟨⟨tail, ended⟩, balanced⟩
      exact ⟨_, (nested_eq_ok target source _).mpr ⟨tail, ended, (run_nil_iff _).mpr balanced, rfl⟩⟩
  · intro out lowered
    rcases (nested_eq_ok target source out).mp lowered with ⟨tail, ended, run, _⟩
    rcases Tag.walk_of_ok source tail small ended with ⟨segments, walk⟩
    have tokens := (Tag.scan_of_walk small walk).tokens
    rw [tokens] at run ⊢
    rw [nested_of_walk target source segments small walk ((run_nil_iff _).mp run)] at lowered
    cases lowered
    rw [← Tag.join_render_of_walk walk]
    exact Tag.splice_tokensAt (Tag.call target) 0 segments

def accented : Text := ['é', '<', 'p', '>', '<', 'b', '/', '>', '<', '/', 'p', '>']

theorem nested_ok_of_accented :
    Balanced (Tag.scan accented).tokens ∧
      Text.splice 0 accented ((Tag.scan accented).tokens.map fun token =>
        (token.span, token.tag.call "h".toList)) = some "éh('p', null, h('b', null))".toList := by
  have small : accented.bytes ≤ Span.maxOffset := by decide
  have walk : Tag.Walk accented
      [.plain 'é', .found ⟨.opening, ['p'], []⟩, .found ⟨.selfClosing, ['b'], []⟩,
        .found ⟨.closing, ['p'], []⟩] none :=
    .plain rfl (.tagged rfl (.tagged rfl (.tagged rfl .done)))
  have lowered : nested "h".toList accented = .ok "éh('p', null, h('b', null))".toList := by
    rw [nested_of_walk "h".toList accented _ small walk ((run_nil_iff _).mp rfl)]
    simp [Tag.call, Tag.callHead, Attribute.parse, Pattern.occurrences_nil, Attribute.literal]
  have result := nested_ok_iff_balanced "h".toList accented small
  exact ⟨(result.1.mp ⟨_, lowered⟩).2, result.2 _ lowered⟩

end TagCalls.Lowering
