import TagCalls.Proofs.Lowering.Balance
import TagCalls.Proofs.Tag.Slice

/-!
What the lowering of nested tags reports. Tags are viable as long as more tags can make them balanced,
so the first problem is the tag behind which they no longer are, or the end of the source if they
never get balanced. The stack of open tags is not mentioned where a problem is defined.
-/
namespace TagCalls.Lowering

open Tag (Token)

def Viable (tokens : List Token) : Prop := ∃ more, Balanced (tokens ++ more)

/-- Among the tags that follow an opening tag, the one that closes it. -/
def Matched (opener : Token) (after : List Token) : Prop :=
  ∃ inner closer rest, after = inner ++ closer :: rest ∧ Balanced inner ∧
    closer.tag.kind = .closing ∧ opener.tag.name = closer.tag.name

def AllMatched (tokens : List Token) : Prop :=
  ∀ before opener after, tokens = before ++ opener :: after → opener.tag.kind = .opening →
    Matched opener after

def LastUnmatched (tokens : List Token) (opener : Token) : Prop :=
  ∃ before after, tokens = before ++ opener :: after ∧ opener.tag.kind = .opening ∧
    ¬ Matched opener after ∧ AllMatched after

/-- The first problem of a scan and the error that reports it. -/
inductive FirstProblem (scan : Tag.Scan) : TranspileError → Prop
  | unexpected {before after : List Token} {closer : Token} : scan.tokens = before ++ closer :: after →
      closer.tag.kind = .closing → Viable before → ¬ Viable (before ++ [closer]) → AllMatched before →
      FirstProblem scan (.unexpected closer.tag.name closer.span)
  | mismatched {before after : List Token} {opener closer : Token} :
      scan.tokens = before ++ closer :: after → closer.tag.kind = .closing → Viable before →
      ¬ Viable (before ++ [closer]) → LastUnmatched before opener →
      FirstProblem scan (.mismatched opener.tag.name closer.tag.name closer.span)
  | unterminated {failure : Tag.Unterminated} : scan.ending = .error failure → Viable scan.tokens →
      FirstProblem scan (.unterminated failure.name failure.span)
  | unclosed {tail : Text} {opener : Token} : scan.ending = .ok tail → Viable scan.tokens →
      ¬ Balanced scan.tokens → LastUnmatched scan.tokens opener →
      FirstProblem scan (.unclosed opener.tag.name opener.span)

/-! ### Runs and viable words -/

theorem run_append (nesting : Nesting) (first second : List Token) :
    nesting.run (first ++ second) = nesting.run first >>= fun next => next.run second := by
  induction first generalizing nesting with
  | nil => rfl
  | cons token first ih =>
    rw [List.cons_append]
    cases step : nesting.step token with
    | error error =>
      rw [Nesting.run, Nesting.run, step]
      rfl
    | ok next =>
      rw [run_cons nesting next token _ step, run_cons nesting next token _ step]
      exact ih next

theorem run_append_ok (nesting next : Nesting) (first second : List Token)
    (run : nesting.run first = .ok next) : nesting.run (first ++ second) = next.run second := by
  rw [run_append, run]
  rfl

def closerOf (opener : Token) : Token := ⟨⟨.closing, opener.tag.name, []⟩, opener.span⟩

theorem run_closers (nesting : Nesting) : nesting.run (nesting.map closerOf) = .ok [] := by
  induction nesting with
  | nil => rfl
  | cons opener outer ih =>
    have step := step_closing opener (closerOf opener) outer rfl rfl
    rw [List.map_cons, run_cons _ outer _ _ step]
    exact ih

theorem viable_iff_run (tokens : List Token) :
    Viable tokens ↔ ∃ nesting, Nesting.run [] tokens = .ok nesting := by
  constructor
  · intro viable
    rcases viable with ⟨more, balanced⟩
    have run := (run_nil_iff _).mpr balanced
    rw [run_append] at run
    cases first : Nesting.run [] tokens with
    | error error =>
      rw [first] at run
      cases run
    | ok nesting => exact ⟨nesting, rfl⟩
  · intro finished
    rcases finished with ⟨nesting, run⟩
    refine ⟨nesting.map closerOf, (run_nil_iff _).mp ?_⟩
    rw [run_append_ok [] nesting tokens _ run]
    exact run_closers nesting

/-! ### What a run leaves open -/

/-- The word that leaves a nesting open: a balanced word behind each of its opening tags. -/
inductive Leaves : List Token → Nesting → Prop
  | none {tokens : List Token} : Balanced tokens → Leaves tokens []
  | opened {before inside : List Token} {opener : Token} {outer : Nesting} : Leaves before outer →
      opener.tag.kind = .opening → Balanced inside → Leaves (before ++ opener :: inside) (opener :: outer)

theorem leaves_append (tokens word : List Token) (nesting : Nesting) (leaves : Leaves tokens nesting)
    (balanced : Balanced word) : Leaves (tokens ++ word) nesting := by
  cases leaves with
  | none first => exact .none (balanced_append _ _ first balanced)
  | opened before opens inside =>
    rw [List.append_assoc, List.cons_append]
    exact .opened before opens (balanced_append _ _ inside balanced)

theorem leaves_step (tokens : List Token) (nesting next : Nesting) (token : Token)
    (leaves : Leaves tokens nesting) (step : nesting.step token = .ok next) :
    Leaves (tokens ++ [token]) next := by
  cases kind : token.tag.kind with
  | selfClosing =>
    rw [step_selfClosing nesting token kind] at step
    cases step
    exact leaves_append tokens [token] nesting leaves (.selfClosing kind .nil)
  | opening =>
    rw [step_opening nesting token kind] at step
    cases step
    exact .opened leaves kind .nil
  | closing =>
    rcases step_closing_inv nesting next token kind step with ⟨opener, rfl, same⟩
    cases leaves with
    | @opened before inside _ _ outer opens balanced =>
      have pair : Balanced (opener :: (inside ++ [token])) := .pair opens kind same balanced .nil
      have closed := leaves_append before _ next outer pair
      simpa using closed

theorem leaves_run (past tokens : List Token) (nesting final : Nesting) (leaves : Leaves past nesting)
    (run : nesting.run tokens = .ok final) : Leaves (past ++ tokens) final := by
  induction tokens generalizing past nesting with
  | nil =>
    cases run
    rwa [List.append_nil]
  | cons token tokens ih =>
    rcases run_cons_ok nesting final token tokens run with ⟨next, step, rest⟩
    have onward := ih (past ++ [token]) next (leaves_step past nesting next token leaves step) rest
    rwa [List.append_assoc] at onward

theorem leaves_of_run (tokens : List Token) (nesting : Nesting)
    (run : Nesting.run [] tokens = .ok nesting) : Leaves tokens nesting :=
  leaves_run [] tokens [] nesting (.none .nil) run

theorem allMatched_of_balanced (tokens : List Token) (balanced : Balanced tokens) : AllMatched tokens := by
  induction balanced with
  | nil =>
    intro before opener after split
    simp at split
  | @selfClosing token rest kind _ ih =>
    intro before opener after split opens
    cases before with
    | nil =>
      cases split
      rw [opens] at kind
      cases kind
    | cons first before =>
      rcases List.cons.inj split with ⟨rfl, later⟩
      exact ih before opener after later opens
  | @pair outer closer inner rest _ closes same balanced _ innerMatched restMatched =>
    intro before opener after split opens
    cases before with
    | nil =>
      cases split
      exact ⟨inner, closer, rest, rfl, balanced, closes, same⟩
    | cons first before =>
      rcases List.cons.inj split with ⟨rfl, later⟩
      rcases List.append_eq_append_iff.mp later with ⟨gap, rfl, split'⟩ | ⟨gap, rfl, split'⟩
      · cases gap with
        | nil =>
          cases split'
          rw [opens] at closes
          cases closes
        | cons third gap =>
          rcases List.cons.inj split' with ⟨rfl, rest'⟩
          exact restMatched gap opener after rest' opens
      · cases gap with
        | nil =>
          cases split'
          rw [opens] at closes
          cases closes
        | cons third gap =>
          rcases List.cons.inj split' with ⟨rfl, rfl⟩
          rcases innerMatched before opener gap rfl opens with ⟨word, second, more, rfl, facts⟩
          exact ⟨word, second, more ++ closer :: rest, by simp, facts⟩

theorem not_matched_of_balanced (opener : Token) (after : List Token) (balanced : Balanced after) :
    ¬ Matched opener after := by
  intro matched
  rcases matched with ⟨inner, closer, rest, rfl, word, closes, _⟩
  have run := (run_nil_iff _).mpr balanced
  rw [run_balanced [] inner _ word] at run
  rcases run_cons_ok [] [] closer rest run with ⟨next, step, _⟩
  rcases step_closing_inv [] next closer closes step with ⟨_, empty, _⟩
  cases empty

theorem lastUnmatched_of_leaves (tokens : List Token) (opener : Token) (outer : Nesting)
    (leaves : Leaves tokens (opener :: outer)) : LastUnmatched tokens opener := by
  cases leaves with
  | @opened before inside _ _ _ opens balanced =>
    exact ⟨before, inside, rfl, opens, not_matched_of_balanced opener inside balanced,
      allMatched_of_balanced inside balanced⟩

theorem lastUnmatched_unique (tokens : List Token) (first second : Token)
    (one : LastUnmatched tokens first) (two : LastUnmatched tokens second) : first = second := by
  rcases one with ⟨before, after, rfl, opens, unmatched, matched⟩
  rcases two with ⟨before', after', split, opens', unmatched', matched'⟩
  rcases List.append_eq_append_iff.mp split with ⟨gap, rfl, rest⟩ | ⟨gap, rfl, rest⟩
  · cases gap with
    | nil => exact (List.cons.inj rest).1
    | cons third gap =>
      rcases List.cons.inj rest with ⟨_, rfl⟩
      exact absurd (matched gap second after' rfl opens') unmatched'
  · cases gap with
    | nil => exact (List.cons.inj rest).1.symm
    | cons third gap =>
      rcases List.cons.inj rest with ⟨_, rfl⟩
      exact absurd (matched' gap first after rfl opens) unmatched

theorem not_allMatched (tokens : List Token) (opener : Token) (last : LastUnmatched tokens opener) :
    ¬ AllMatched tokens := by
  intro matched
  rcases last with ⟨before, after, split, opens, unmatched, _⟩
  exact unmatched (matched before opener after split opens)

theorem allMatched_iff (tokens : List Token) (nesting : Nesting)
    (run : Nesting.run [] tokens = .ok nesting) : AllMatched tokens ↔ nesting = [] := by
  have leaves := leaves_of_run tokens nesting run
  constructor
  · intro matched
    cases nesting with
    | nil => rfl
    | cons opener outer =>
      exact absurd matched (not_allMatched tokens opener (lastUnmatched_of_leaves tokens opener outer leaves))
  · intro empty
    subst empty
    cases leaves with
    | none balanced => exact allMatched_of_balanced tokens balanced

theorem lastUnmatched_iff (tokens : List Token) (nesting : Nesting) (opener : Token)
    (run : Nesting.run [] tokens = .ok nesting) :
    LastUnmatched tokens opener ↔ ∃ outer, nesting = opener :: outer := by
  have leaves := leaves_of_run tokens nesting run
  constructor
  · intro last
    cases nesting with
    | nil => exact absurd ((allMatched_iff tokens [] run).mpr rfl) (not_allMatched tokens opener last)
    | cons inner outer =>
      have innermost := lastUnmatched_of_leaves tokens inner outer leaves
      rw [lastUnmatched_unique tokens opener inner last innermost]
      exact ⟨outer, rfl⟩
  · intro stack
    rcases stack with ⟨outer, rfl⟩
    exact lastUnmatched_of_leaves tokens opener outer leaves

/-! ### The error of a run -/

theorem step_error_iff (nesting : Nesting) (token : Token) (error : TranspileError) :
    nesting.step token = .error error ↔ token.tag.kind = .closing ∧
      ((nesting = [] ∧ error = .unexpected token.tag.name token.span) ∨
        ∃ opener outer, nesting = opener :: outer ∧ opener.tag.name ≠ token.tag.name ∧
          error = .mismatched opener.tag.name token.tag.name token.span) := by
  cases kind : token.tag.kind with
  | selfClosing => simp [step_selfClosing nesting token kind]
  | opening => simp [step_opening nesting token kind]
  | closing =>
    cases nesting with
    | nil => simp [Nesting.step, kind, eq_comm]
    | cons opener outer =>
      by_cases same : opener.tag.name = token.tag.name
      · simp [step_closing opener token outer kind same, same]
      · have refused : Nesting.step (opener :: outer) token =
            .error (.mismatched opener.tag.name token.tag.name token.span) := by
          simp [Nesting.step, kind, same]
        rw [refused]
        constructor
        · intro failed
          cases failed
          exact ⟨rfl, .inr ⟨opener, outer, rfl, same, rfl⟩⟩
        · intro reason
          rcases reason with ⟨_, ⟨empty, _⟩ | ⟨inner, rest, top, _, rfl⟩⟩
          · cases empty
          · cases top
            rfl

theorem run_error_iff (nesting : Nesting) (tokens : List Token) (error : TranspileError) :
    nesting.run tokens = .error error ↔ ∃ before token after next, tokens = before ++ token :: after ∧
      nesting.run before = .ok next ∧ next.step token = .error error := by
  constructor
  · intro failed
    induction tokens generalizing nesting with
    | nil => cases failed
    | cons token tokens ih =>
      cases step : nesting.step token with
      | error first =>
        rw [Nesting.run, step] at failed
        cases failed
        exact ⟨[], token, tokens, nesting, rfl, rfl, step⟩
      | ok next =>
        rw [run_cons nesting next token tokens step] at failed
        rcases ih next failed with ⟨before, culprit, after, last, rfl, run, error⟩
        exact ⟨token :: before, culprit, after, last, rfl, by rw [run_cons _ _ _ _ step, run], error⟩
  · intro reached
    rcases reached with ⟨before, token, after, next, rfl, run, step⟩
    rw [run_append_ok nesting next before _ run, Nesting.run, step]
    rfl

theorem not_viable_of_step (before : List Token) (nesting : Nesting) (closer : Token)
    (error : TranspileError) (run : Nesting.run [] before = .ok nesting)
    (step : nesting.step closer = .error error) : ¬ Viable (before ++ [closer]) := by
  intro viable
  rcases (viable_iff_run _).mp viable with ⟨final, finished⟩
  rw [run_append_ok [] nesting before _ run, Nesting.run, step] at finished
  cases finished

theorem step_error_of_not_viable (before : List Token) (nesting : Nesting) (closer : Token)
    (run : Nesting.run [] before = .ok nesting) (broken : ¬ Viable (before ++ [closer])) :
    ∃ error, nesting.step closer = .error error := by
  cases step : nesting.step closer with
  | error error => exact ⟨error, rfl⟩
  | ok next =>
    refine absurd ((viable_iff_run _).mpr ⟨next, ?_⟩) broken
    rw [run_append_ok [] nesting before _ run, run_cons nesting next closer [] step]
    rfl

theorem nested_eq_error (target source : Text) (error : TranspileError) :
    nested target source = .error error ↔
      Nesting.run [] (Tag.scan source).tokens = .error error ∨
      ∃ nesting, Nesting.run [] (Tag.scan source).tokens = .ok nesting ∧
        ((∃ failure, (Tag.scan source).ending = .error failure ∧
            error = .unterminated failure.name failure.span) ∨
          ∃ tail opener outer, (Tag.scan source).ending = .ok tail ∧ nesting = opener :: outer ∧
            error = .unclosed opener.tag.name opener.span) := by
  unfold nested
  cases run : Nesting.run [] (Tag.scan source).tokens with
  | error first => simp [bind, Except.bind, run]
  | ok nesting =>
    cases ended : (Tag.scan source).ending with
    | error failure => simp [bind, Except.bind, run, ended, eq_comm]
    | ok tail =>
      cases nesting with
      | nil => simp [bind, Except.bind, run, ended]
      | cons opener outer => simp [bind, Except.bind, run, ended, eq_comm]

/-! ### The first problem -/

theorem firstProblem_of_nested (target source : Text) (error : TranspileError)
    (failed : nested target source = .error error) : FirstProblem (Tag.scan source) error := by
  rcases (nested_eq_error target source error).mp failed with stopped | ⟨nesting, run, ending⟩
  · rcases (run_error_iff [] _ error).mp stopped with ⟨before, closer, after, nesting, split, run, step⟩
    have viable := (viable_iff_run before).mpr ⟨nesting, run⟩
    have broken := not_viable_of_step before nesting closer error run step
    rcases (step_error_iff nesting closer error).mp step with
      ⟨closes, ⟨empty, rfl⟩ | ⟨opener, outer, top, _, rfl⟩⟩
    · exact .unexpected split closes viable broken ((allMatched_iff before nesting run).mpr empty)
    · have last := (lastUnmatched_iff before nesting opener run).mpr ⟨outer, top⟩
      exact .mismatched split closes viable broken last
  · have viable := (viable_iff_run _).mpr ⟨nesting, run⟩
    rcases ending with ⟨failure, ended, rfl⟩ | ⟨tail, opener, outer, ended, top, rfl⟩
    · exact .unterminated ended viable
    · have last := (lastUnmatched_iff _ nesting opener run).mpr ⟨outer, top⟩
      refine .unclosed ended viable ?_ last
      intro balanced
      exact not_allMatched _ opener last (allMatched_of_balanced _ balanced)

theorem nested_of_firstProblem (target source : Text) (error : TranspileError)
    (problem : FirstProblem (Tag.scan source) error) : nested target source = .error error := by
  apply (nested_eq_error target source error).mpr
  cases problem with
  | @unexpected before after closer split closes viable broken matched =>
    rcases (viable_iff_run before).mp viable with ⟨nesting, run⟩
    have empty := (allMatched_iff before nesting run).mp matched
    have step := (step_error_iff nesting closer _).mpr ⟨closes, .inl ⟨empty, rfl⟩⟩
    exact .inl ((run_error_iff [] _ _).mpr ⟨before, closer, after, nesting, split, run, step⟩)
  | @mismatched before after opener closer split closes viable broken last =>
    rcases (viable_iff_run before).mp viable with ⟨nesting, run⟩
    rcases (lastUnmatched_iff before nesting opener run).mp last with ⟨outer, top⟩
    rcases step_error_of_not_viable before nesting closer run broken with ⟨error, step⟩
    rcases (step_error_iff nesting closer error).mp step with ⟨_, ⟨empty, _⟩ | ⟨inner, _, top', other, rfl⟩⟩
    · rw [top] at empty
      cases empty
    · rw [top] at top'
      cases top'
      exact .inl ((run_error_iff [] _ _).mpr ⟨before, closer, after, nesting, split, run, step⟩)
  | unterminated ended viable =>
    rcases (viable_iff_run _).mp viable with ⟨nesting, run⟩
    exact .inr ⟨nesting, run, .inl ⟨_, ended, rfl⟩⟩
  | @unclosed tail opener ended viable _ last =>
    rcases (viable_iff_run _).mp viable with ⟨nesting, run⟩
    rcases (lastUnmatched_iff _ nesting opener run).mp last with ⟨outer, top⟩
    exact .inr ⟨nesting, run, .inr ⟨tail, opener, outer, ended, top, rfl⟩⟩

/-- What stands in the source under the span of an error. -/
def Shows (part : Text) : TranspileError → Prop
  | .unclosed name _ => ∃ raw, part = Tag.render ⟨.opening, name, raw⟩
  | .mismatched _ found _ => part = Tag.render ⟨.closing, found, []⟩
  | .unexpected name _ => part = Tag.render ⟨.closing, name, []⟩
  | .unterminated name _ => ∃ raw, part = '<' :: (name ++ raw)
  | .invalidOutput _ _ | .fault _ => False

theorem render_closing (tag : Tag) (kind : tag.kind = .closing) :
    tag.render = Tag.render ⟨.closing, tag.name, []⟩ := by
  rcases tag with ⟨_, name, raw⟩
  cases kind
  rfl

theorem shows_of_firstProblem (source : Text) (error : TranspileError) (small : source.bytes ≤ Span.maxOffset)
    (problem : FirstProblem (Tag.scan source) error) :
    ∃ span part, error.span? = some span ∧ source.slice? span = some part ∧ Shows part error := by
  have slice (token : Token) (member : token ∈ (Tag.scan source).tokens) :=
    Tag.slice?_of_mem_tokens source token small member
  cases problem with
  | @unexpected before after closer split closes =>
    have part := slice closer (by rw [split]; simp)
    rw [render_closing closer.tag closes] at part
    exact ⟨closer.span, _, rfl, part, rfl⟩
  | @mismatched before after opener closer split closes =>
    have part := slice closer (by rw [split]; simp)
    rw [render_closing closer.tag closes] at part
    exact ⟨closer.span, _, rfl, part, rfl⟩
  | @unterminated failure ended =>
    rcases Tag.slice?_of_failure source failure small ended with ⟨raw, part, _⟩
    exact ⟨failure.span, _, rfl, part, raw, rfl⟩
  | @unclosed tail opener ended _ _ last =>
    rcases last with ⟨before, after, split, opens, _⟩
    have part := slice opener (by rw [split]; simp)
    rcases opener with ⟨⟨kind, name, raw⟩, span⟩
    cases opens
    exact ⟨span, _, rfl, part, raw, rfl⟩

/-- The lowering fails exactly with the first problem of the scan, and the error's span lies between
characters of the source and shows the tag in question. -/
theorem nested_reports_first_problem (target source : Text) (error : TranspileError)
    (small : source.bytes ≤ Span.maxOffset) :
    (nested target source = .error error ↔ FirstProblem (Tag.scan source) error) ∧
    (nested target source = .error error → ∃ span part, error.span? = some span ∧
      source.slice? span = some part ∧ Shows part error) := by
  constructor
  · exact ⟨firstProblem_of_nested target source error, nested_of_firstProblem target source error⟩
  · intro failed
    exact shows_of_firstProblem source error small (firstProblem_of_nested target source error failed)

def misnested : Text := "é<a><b></a></b>".toList

theorem nested_reports_misnested :
    misnested.bytes ≤ Span.maxOffset ∧
      FirstProblem (Tag.scan misnested) (.mismatched ['b'] ['a'] ⟨8, 12⟩) ∧
      ∃ span part, some (⟨8, 12⟩ : Span) = some span ∧ misnested.slice? span = some part ∧
        Shows part (.mismatched ['b'] ['a'] ⟨8, 12⟩) := by
  have small : misnested.bytes ≤ Span.maxOffset := by decide
  have walk : Tag.Walk misnested
      [.plain 'é', .found ⟨.opening, ['a'], []⟩, .found ⟨.opening, ['b'], []⟩,
        .found ⟨.closing, ['a'], []⟩, .found ⟨.closing, ['b'], []⟩] none :=
    .plain rfl (.tagged rfl (.tagged rfl (.tagged rfl (.tagged rfl .done))))
  have failed : nested ['h'] misnested = .error (.mismatched ['b'] ['a'] ⟨8, 12⟩) := by
    apply (nested_eq_error _ _ _).mpr
    left
    rw [(Tag.scan_of_walk small walk).tokens]
    rfl
  have report := nested_reports_first_problem ['h'] misnested (.mismatched ['b'] ['a'] ⟨8, 12⟩) small
  exact ⟨small, report.1.mp failed, report.2 failed⟩

end TagCalls.Lowering
