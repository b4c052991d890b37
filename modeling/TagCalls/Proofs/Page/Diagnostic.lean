import TagCalls.Diagnostic.Basic
import TagCalls.Proofs.Lowering.Problem
import TagCalls.Proofs.Page.Emitted
import TagCalls.Transpile.Session

/-!
Where the problems of a page's scripts are reported. A script is a part of its page, so a span inside the
script, moved by the offset at which the script begins, shows the same text in the page. Main statement:
`diagnostic_shows_tag`.
-/
namespace TagCalls.Page

open Lowering (Shows)

/-! ### Blocks as parts of their page -/

theorem cut_of_located {type document : Text} {blocks : List Block} {block : Block}
    (small : document.bytes ≤ Span.maxOffset) (located : locate type document = .ok blocks)
    (member : block ∈ blocks) :
    ∃ before after, document = before ++ block.text ++ after ∧
      block.content = ⟨before.bytes, (before ++ block.text).bytes⟩ := by
  obtain ⟨before, parts, rest, number, split, _, rfl⟩ := spans_of_located small located member
  have shape : document = before ++ parts.opening ++ parts.content ++ (parts.closing ++ rest) := by
    rw [split, parts.text_eq]
    simp only [List.append_assoc]
  refine ⟨before ++ parts.opening, parts.closing ++ rest, shape, ?_⟩
  simp only [List.append_assoc]

/-! ### Spans of errors -/

theorem transpile_strict_eq_failed (pragma source text : Text) (error : TranspileError) :
    Session.transpile { pragma, lowering := Mode.strict.lowering } source = .failed error text ↔
      Lowering.nested (Directive.resolve pragma source) source = .error error ∧ text = source := by
  unfold Session.transpile Session.attempt Mode.lowering
  cases lowered : Lowering.nested (Directive.resolve pragma source) source with
  | error first => simp [lowered, eq_comm]
  | ok output => simp [lowered]

theorem ofError?_of_shows {error : TranspileError} {part : Text} {here span : Span} {base : Nat}
    (shows : Shows part error) (known : error.span? = some here) (moved : here.shift? base = some span) :
    Diagnostic.ofError? error base = some ⟨.error, some span, error.message, error.code⟩ := by
  cases error with
  | unclosed name place | mismatched expected found place | unexpected name place | unterminated name place =>
    cases known
    simp only [Diagnostic.ofError?, TranspileError.span?, moved, Option.map_some]
  | invalidOutput message place => exact shows.elim
  | fault message => exact shows.elim

theorem stop_of_unterminated {target source name : Text} {here : Span} (small : source.bytes ≤ Span.maxOffset)
    (failed : Lowering.nested target source = .error (.unterminated name here)) : here.stop = source.bytes := by
  cases Lowering.firstProblem_of_nested target source _ failed with
  | @unterminated failure ended _ =>
    obtain ⟨_, _, stop⟩ := Tag.slice?_of_failure source failure small ended
    exact stop

/-- The diagnostic for a block that fails has a place in the block's content, and there the page shows what
the error's span shows in the block: the tag in question, up to the end of the block if it never ends. -/
theorem diagnostic_shows_tag (type pragma document text : Text) (blocks : List Block) (block : Block)
    (error : TranspileError) (small : document.bytes ≤ Span.maxOffset)
    (located : locate type document = .ok blocks) (member : block ∈ blocks)
    (failed : Session.transpile { pragma, lowering := Mode.strict.lowering } block.text = .failed error text) :
    ∃ diagnostic here span part,
      Diagnostic.ofError? error block.content.start = some diagnostic ∧ diagnostic.span = some span ∧
      block.content.start ≤ span.start ∧ span.start ≤ span.stop ∧ span.stop ≤ block.content.stop ∧
      error.span? = some here ∧ block.text.slice? here = some part ∧ document.slice? span = some part ∧
      Shows part error ∧ ∀ name, error = .unterminated name here → span.stop = block.content.stop := by
  obtain ⟨before, after, cut, content⟩ := cut_of_located small located member
  have whole := congrArg Text.bytes cut
  simp only [Text.bytes_append] at whole
  have fits : block.text.bytes ≤ Span.maxOffset := by omega
  have broken := ((transpile_strict_eq_failed pragma block.text text error).mp failed).1
  have problem := Lowering.firstProblem_of_nested _ _ _ broken
  obtain ⟨here, part, known, sliced, shows⟩ := Lowering.shows_of_firstProblem block.text error fits problem
  obtain ⟨front, behind, split, place⟩ := Text.slice?_eq_some_iff.mp sliced
  have inside := congrArg Text.bytes split
  simp only [Text.bytes_append] at inside
  have moved : here.shift? block.content.start =
      some ⟨(before ++ front).bytes, (before ++ front ++ part).bytes⟩ := by
    rw [content, place, Span.shift?, if_pos]
    · simp only [Text.bytes_append, Nat.add_assoc]
    · simp only [Text.bytes_append]
      omega
  refine ⟨_, here, _, part, ofError?_of_shows shows known moved, rfl, ?_, ?_, ?_, known, sliced, ?_, shows, ?_⟩
  · rw [content]
    simp only [Text.bytes_append]
    omega
  · simp only [Text.bytes_append]
    omega
  · rw [content]
    simp only [Text.bytes_append]
    omega
  · apply Text.slice?_eq_some_iff.mpr
    refine ⟨before ++ front, behind ++ after, ?_, rfl⟩
    rw [cut, split]
    simp only [List.append_assoc]
  · intro name same
    rw [same] at broken
    have stop := stop_of_unterminated fits broken
    rw [place] at stop
    rw [content]
    simp only [Text.bytes_append] at stop ⊢
    omega

def strayScript : Text := "é</p>".toList

def strayPage : Text := 'ü' :: (sampleParts strayScript).text

def strayBlock : Block := ⟨0, strayScript, ⟨26, 32⟩, ⟨2, 41⟩⟩

theorem locate_stray : locate defaultType strayPage = .ok [strayBlock] := by
  have element := Walk.element (stands_sample strayScript (by decide) []) .done
  rw [List.append_nil] at element
  have plain : ¬ Begins strayPage := by
    intro begins
    exact not_prefix_of_ne (by decide) _ (prefix_of_begins begins)
  have searched := (elements_eq_ok_iff strayPage _).mpr ⟨_, .plain plain element, rfl⟩
  have wanted : isWanted defaultType ((sampleParts strayScript).placed 2) = true :=
    (isWanted_renderStart _ [sampleItem] 0 _ rfl).mpr (by decide)
  rw [locate_of_elements _ searched, elementsAt, elementsAt]
  exact congrArg (fun found => Except.ok (blocksFrom 0 found)) (List.filter_cons_of_pos wanted)

theorem transpile_stray :
    Session.transpile { pragma := ['h'], lowering := Mode.strict.lowering } strayBlock.text =
      .failed (.unexpected ['p'] ⟨2, 6⟩) strayScript := by
  have walk : Tag.Walk strayScript [.plain 'é', .found ⟨.closing, ['p'], []⟩] none :=
    .plain rfl (.tagged rfl .done)
  apply (transpile_strict_eq_failed _ _ _ _).mpr
  refine ⟨(Lowering.nested_eq_error _ _ _).mpr (.inl ?_), rfl⟩
  have tokens := (Tag.scan_of_walk (by decide) walk).tokens
  rw [strayBlock, tokens]
  rfl

/-- The closing tag stands at offset 2 of the script and at offset 28 of the page. -/
theorem diagnostic_shows_stray_tag :
    ∃ diagnostic, Diagnostic.ofError? (.unexpected ['p'] ⟨2, 6⟩) strayBlock.content.start = some diagnostic ∧
      diagnostic.span = some ⟨28, 32⟩ ∧ strayPage.slice? ⟨28, 32⟩ = some "</p>".toList := by
  obtain ⟨diagnostic, here, span, part, built, placed, _, _, _, _, _, page, shows, _⟩ :=
    diagnostic_shows_tag defaultType ['h'] strayPage strayScript [strayBlock] strayBlock
      (.unexpected ['p'] ⟨2, 6⟩) (by decide) locate_stray List.mem_cons_self transpile_stray
  have moved : Diagnostic.ofError? (.unexpected ['p'] ⟨2, 6⟩) strayBlock.content.start =
      some ⟨.error, some ⟨28, 32⟩, _, _⟩ := rfl
  rw [moved] at built
  cases built
  cases placed
  cases shows
  exact ⟨_, moved, rfl, page⟩

end TagCalls.Page
