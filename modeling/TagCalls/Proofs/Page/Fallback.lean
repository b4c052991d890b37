import TagCalls.Proofs.Lowering.Quoting
import TagCalls.Proofs.Page.Diagnostic
import TagCalls.Proofs.Page.Process

/-!
What best effort makes of a script that fails: its text is loaded unchanged, behind a comment that quotes the
error. The text is a block of the page, so it does not end the element that it is put into. The comment does
so where it quotes a closing tag that is not in the text: the one that the error asks for. Main statement:
`degrades_unless_script`.
-/
namespace TagCalls.Page

open Lowering (Quotes)
open Text (IsName)

/-- The error asks for a closing tag whose name begins with `script`, in any letter case. -/
def ExpectsScript (error : TranspileError) : Prop :=
  ∃ expected found span, error = .mismatched expected found span ∧ "script".toList <+: Text.fold expected

/-- What becomes of a block that fails with this error: its text is loaded behind the comment, or nothing is,
because the loader takes the comment for the end of the element. -/
structure Degrades (emitter : Emitter) (error : TranspileError) (block : Block) (report : Report) : Prop where
  result : report.result = .failed error block.text
  fallback : report.status = .loadedFallback ↔ ¬ ExpectsScript error
  visible : ⟨block, Transpiled.annotate error block.text⟩ ∈ emitter.loaded ↔ ¬ ExpectsScript error
  refused : ExpectsScript error → ∃ reason, report.status = .loadFailed (.unembeddable block.id reason)

/-! ### Embeddable code -/

theorem embeddable_of_bare {code : Text} (bare : '<' ∉ code) : Embeddable code := by
  intro inside
  have bracket : '<' ∈ Text.fold code := inside.subset (by decide)
  obtain ⟨c, member, same⟩ := List.mem_map.mp bracket
  rw [toLower_eq_bracket same] at member
  exact bare member

theorem embeddable_around {x : Char} (absent : x.toLower ∉ endWord) (front back : Text) :
    Embeddable (front ++ x :: back) ↔ Embeddable front ∧ Embeddable back := by
  unfold Embeddable
  rw [Text.fold_append, Text.fold_cons, ← not_or]
  apply not_congr
  constructor
  · exact Text.infix_of_absent absent
  · intro part
    rcases part with left | right
    · exact left.trans (List.prefix_append _ _).isInfix
    · exact right.trans (List.infix_cons (List.infix_refl _) |>.trans (List.suffix_append _ _).isInfix)

theorem embeddable_bracket {code : Text} (bare : '<' ∉ code) :
    Embeddable ('<' :: code) ↔ ¬ "/script".toList <+: Text.fold code := by
  have behind : ¬ endWord <:+: Text.fold code := embeddable_of_bare bare
  unfold Embeddable
  rw [Text.fold_cons, List.infix_cons_iff, or_iff_left behind, endWord_eq]
  exact not_congr (List.cons_prefix_cons.trans (and_iff_right rfl))

section
variable {name : Text}

theorem embeddable_open (named : IsName name) : Embeddable ('<' :: name) := by
  rw [embeddable_bracket (Text.not_mem_of_isName named rfl)]
  intro begins
  obtain ⟨c, tail, rfl, letter⟩ := named.head
  have slash := (List.cons_prefix_cons.mp begins).1
  rw [eq_of_toLower_eq (by decide) slash.symm] at letter
  cases letter

theorem embeddable_close (named : IsName name) :
    Embeddable ('<' :: '/' :: name) ↔ ¬ "script".toList <+: Text.fold name := by
  have bare : '<' ∉ '/' :: name := by
    intro member
    rcases List.mem_cons.mp member with other | inside
    · cases other
    · exact Text.not_mem_of_isName named rfl inside
  rw [embeddable_bracket bare]
  exact not_congr (List.cons_prefix_cons.trans (and_iff_right rfl))

end

theorem embeddable_of_part {part code : Text} (inside : part <:+: code) (embeddable : Embeddable code) :
    Embeddable part := by
  intro ends
  obtain ⟨before, after, rfl⟩ := inside
  apply embeddable
  rw [Text.fold_append, Text.fold_append]
  exact ends.trans ⟨Text.fold before, Text.fold after, rfl⟩

theorem embeddable_quoted {words : Text} (bare : '<' ∉ words) (tag back : Text) :
    Embeddable (words ++ ' ' :: (tag ++ '>' :: back)) ↔ Embeddable tag ∧ Embeddable back :=
  calc
    _ ↔ Embeddable words ∧ Embeddable (tag ++ '>' :: back) := embeddable_around (by decide) _ _
    _ ↔ Embeddable (tag ++ '>' :: back) := and_iff_right (embeddable_of_bare bare)
    _ ↔ Embeddable tag ∧ Embeddable back := embeddable_around (by decide) _ _

/-! ### The comment -/

section
variable {source : Text} {error : TranspileError}

theorem message_mismatched (expected found : Text) (span : Span) :
    TranspileError.message (.mismatched expected found span) =
      "mismatched closing tag: expected".toList ++ ' ' :: ('<' :: '/' :: expected ++ '>' ::
        (", found".toList ++ ' ' :: ('<' :: '/' :: found ++ '>' :: []))) := by
  show "mismatched closing tag: expected </".toList ++ expected ++ ">, found </".toList ++ found ++ ">".toList = _
  simp

theorem embeddable_message (quotes : Quotes source error) (free : Embeddable source) :
    Embeddable error.message ↔ ¬ ExpectsScript error := by
  -- Of the tags that an error quotes, only the one that it asks for is not in the source.
  have empty : Embeddable [] := embeddable_of_bare List.not_mem_nil
  cases quotes with
  | @unclosed name span named =>
    have words : TranspileError.message (.unclosed name span) =
        "unclosed tag:".toList ++ ' ' :: ('<' :: name ++ '>' :: []) := by
      show "unclosed tag: <".toList ++ name ++ ">".toList = _
      simp
    rw [words, embeddable_quoted (by decide)]
    simp [embeddable_open named, empty, ExpectsScript]
  | @unterminated name span named =>
    have words : TranspileError.message (.unterminated name span) =
        "unterminated tag:".toList ++ ' ' :: ('<' :: name) := by
      show "unterminated tag: <".toList ++ name = _
      simp
    rw [words, embeddable_around (by decide)]
    simp [embeddable_open named, embeddable_of_bare, ExpectsScript]
  | @unexpected name span named written =>
    have words : TranspileError.message (.unexpected name span) =
        "unexpected closing tag:".toList ++ ' ' :: ('<' :: '/' :: name ++ '>' :: []) := by
      show "unexpected closing tag: </".toList ++ name ++ ">".toList = _
      simp
    rw [words, embeddable_quoted (by decide)]
    simp [embeddable_of_part written free, empty, ExpectsScript]
  | @mismatched expected found span expectedNamed foundNamed written =>
    rw [message_mismatched, embeddable_quoted (by decide), embeddable_quoted (by decide),
      embeddable_close expectedNamed]
    simp [embeddable_of_part written free, empty, ExpectsScript]

theorem star_not_mem_message (quotes : Quotes source error) : '*' ∉ error.message := by
  have absent {name : Text} (named : IsName name) : '*' ∉ name := Text.not_mem_of_isName named rfl
  cases quotes with
  | @unclosed name _ named =>
    show '*' ∉ "unclosed tag: <".toList ++ name ++ ">".toList
    simp [absent named]
  | @unexpected name _ named _ =>
    show '*' ∉ "unexpected closing tag: </".toList ++ name ++ ">".toList
    simp [absent named]
  | @unterminated name _ named =>
    show '*' ∉ "unterminated tag: <".toList ++ name
    simp [absent named]
  | @mismatched expected found _ expectedNamed foundNamed _ =>
    rw [message_mismatched]
    simp [absent expectedNamed, absent foundNamed]

theorem commentSafe_of_bare {message : Text} (bare : '*' ∉ message) :
    Transpiled.commentSafe message = message := by
  have elsewhere (c : Char) (t : Text) (other : c ≠ '*') : (Pattern.word '*' ['/']).read? (c :: t) = none := by
    simp [Pattern.word, Text.dropLiteral?, Ne.symm other]
  have kept := (Pattern.word '*' ['/']).replace_append (fun _ => "* /".toList) '*' elsewhere message [] bare
  rw [Pattern.replace_nil, List.append_nil] at kept
  exact kept

theorem embeddable_annotate (quotes : Quotes source error) (free : Embeddable source) :
    Embeddable (Transpiled.annotate error source) ↔ ¬ ExpectsScript error := by
  have parts : Transpiled.annotate error source =
      "/* minijsx: transpile failed:".toList ++ ' ' :: (error.message ++ ' ' :: ("*/".toList ++ '\n' :: source)) := by
    unfold Transpiled.annotate
    rw [commentSafe_of_bare (star_not_mem_message quotes)]
    simp
  rw [parts, embeddable_around (by decide), embeddable_around (by decide), embeddable_around (by decide),
    embeddable_message quotes free]
  simp [free, embeddable_of_bare]

end

/-! ### Blocks that fail -/

theorem embeddable_of_located {type document : Text} {blocks : List Block} {block : Block}
    (located : locate type document = .ok blocks) (member : block ∈ blocks) : Embeddable block.text := by
  obtain ⟨before, parts, rest, number, _, stands, rfl⟩ := stands_of_located located member
  exact stands.content

theorem Accounts.failed {session : Session} {block : Block} {report : Report} {error : TranspileError} {text : Text}
    (accounts : Accounts session true block report) (failed : session.transpile block.text = .failed error text) :
    (report.status = .loadedFallback ↔ Embeddable (Transpiled.annotate error text)) ∧
      (report.isLoaded ↔ Embeddable (Transpiled.annotate error text)) ∧
      (¬ Embeddable (Transpiled.annotate error text) →
        ∃ reason, report.status = .loadFailed (.unembeddable block.id reason)) := by
  have result := accounts.result.trans failed
  have fallback : report.status = .loadedFallback ↔ Embeddable (Transpiled.annotate error text) := by
    rw [accounts.fallback, result]
    simp
  have unloaded : report.status ≠ .loaded := by
    rw [ne_eq, accounts.loaded, result]
    simp
  have tried : report.status ≠ .skipped := by
    rw [ne_eq, accounts.skipped]
    simp
  refine ⟨fallback, ?_, ?_⟩
  · simp [Report.isLoaded, unloaded, fallback]
  · intro closes
    cases status : report.status with
    | loaded => exact absurd status unloaded
    | loadedFallback => exact absurd (fallback.mp status) closes
    | skipped => exact absurd status tried
    | loadFailed refusal =>
      obtain ⟨reason, rfl⟩ := accounts.refused refusal status
      exact ⟨reason, rfl⟩

theorem mem_loaded_iff {bestEffort : Bool} {emitter : Emitter} {reported : List (Block × Report)}
    (filled : emitter.contents = reportedLoads bestEffort reported) (item : Loaded) :
    item ∈ emitter.loaded ↔ ∃ report, (item.block, report) ∈ reported ∧ report.isLoaded ∧
      report.result.executable? bestEffort = some item.code := by
  have injective : Function.Injective fun item : Loaded => (item.block, some item.code) := by
    intro first second same
    cases first
    cases second
    simpa using same
  calc
    item ∈ emitter.loaded ↔ (item.block, some item.code) ∈ emitter.contents :=
      (List.mem_map_of_injective injective).symm
    _ ↔ (item.block, some item.code) ∈ reportedLoads bestEffort reported := by rw [filled]
    _ ↔ _ := by simp [reportedLoads, and_assoc]

/-- With best effort, every block that fails is loaded as it is, behind a comment that tells why, unless that
comment asks for a closing tag that would end the script element; then the loader refuses it. -/
theorem degrades_unless_script (type pragma document : Text) (blocks : List Block)
    (located : locate type document = .ok blocks) :
    ∃ reports emitter,
      process { pragma, lowering := Mode.strict.lowering } Emitter.load true {} blocks = (reports, emitter) ∧
      List.Forall₂ (fun block report => ∀ error text,
        Session.transpile { pragma, lowering := Mode.strict.lowering } block.text = .failed error text →
          Degrades emitter error block report) blocks reports := by
  have distinct : blocks.Pairwise fun first second => first.id ≠ second.id := by
    obtain ⟨found, _, rfl⟩ := elements_of_located located
    exact blocksFrom_distinct 0 _
  have empty : ∀ block ∈ blocks, Emitter.Lacks {} block.id :=
    fun _ _ _ member => absurd member List.not_mem_nil
  obtain ⟨reports, emitter, run, all, filled⟩ := process_contents blocks distinct empty
  refine ⟨reports, emitter, run, ?_⟩
  obtain ⟨level, paired⟩ := List.forall₂_iff_zip.mp all
  refine List.forall₂_iff_zip.mpr ⟨level, ?_⟩
  intro block report pair error text failed
  obtain ⟨lowered, rfl⟩ := (transpile_strict_eq_failed pragma block.text text error).mp failed
  have free := embeddable_of_located located (List.of_mem_zip pair).1
  have comment := embeddable_annotate (Lowering.quotes_of_nested lowered) free
  obtain ⟨fallback, loaded, refused⟩ := (paired pair).failed failed
  constructor
  · exact (paired pair).result.trans failed
  · exact fallback.trans comment
  · rw [mem_loaded_iff filled, ← comment]
    constructor
    · intro held
      obtain ⟨other, reported, taken, _⟩ := held
      exact ((paired reported).failed failed).2.1.mp taken
    · intro embeddable
      refine ⟨report, pair, loaded.mpr embeddable, ?_⟩
      rw [(paired pair).result, failed]
      rfl
  · intro asks
    exact refused fun embeddable => comment.mp embeddable asks

theorem stray_degrades :
    ∃ report emitter, process { pragma := ['h'], lowering := Mode.strict.lowering } Emitter.load true {} [strayBlock] =
        ([report], emitter) ∧ report.status = .loadedFallback ∧
      ⟨strayBlock, "/* minijsx: transpile failed: unexpected closing tag: </p> */\né</p>".toList⟩ ∈ emitter.loaded := by
  obtain ⟨reports, emitter, run, all⟩ := degrades_unless_script defaultType ['h'] strayPage [strayBlock] locate_stray
  cases all with
  | @cons _ report _ _ first rest =>
    cases rest
    have degrades := first _ _ transpile_stray
    have other : ¬ ExpectsScript (.unexpected ['p'] ⟨2, 6⟩) := by
      intro asks
      obtain ⟨_, _, _, same, _⟩ := asks
      cases same
    refine ⟨report, emitter, run, degrades.fallback.mpr other, ?_⟩
    have comment : Transpiled.annotate (.unexpected ['p'] ⟨2, 6⟩) strayBlock.text =
        "/* minijsx: transpile failed: unexpected closing tag: </p> */\né</p>".toList := by decide +kernel
    rw [← comment]
    exact degrades.visible.mpr other

def scriptsScript : Text := "<scripts></b>".toList

def scriptsPage : Text := (sampleParts scriptsScript).text

def scriptsBlock : Block := ⟨0, scriptsScript, ⟨24, 37⟩, ⟨0, 46⟩⟩

theorem locate_scripts : locate defaultType scriptsPage = .ok [scriptsBlock] := by
  have element := Walk.element (stands_sample scriptsScript (by decide) []) .done
  rw [List.append_nil] at element
  have searched := (elements_eq_ok_iff scriptsPage _).mpr ⟨_, element, rfl⟩
  have wanted : isWanted defaultType ((sampleParts scriptsScript).placed 0) = true :=
    (isWanted_renderStart _ [sampleItem] 0 _ rfl).mpr (by decide)
  rw [locate_of_elements _ searched, elementsAt]
  exact congrArg (fun found => Except.ok (blocksFrom 0 found)) (List.filter_cons_of_pos wanted)

theorem transpile_scripts :
    Session.transpile { pragma := ['h'], lowering := Mode.strict.lowering } scriptsBlock.text =
      .failed (.mismatched "scripts".toList ['b'] ⟨9, 13⟩) scriptsScript := by
  have walk : Tag.Walk scriptsScript [.found ⟨.opening, "scripts".toList, []⟩, .found ⟨.closing, ['b'], []⟩] none :=
    .tagged rfl (.tagged rfl .done)
  apply (transpile_strict_eq_failed _ _ _ _).mpr
  refine ⟨(Lowering.nested_eq_error _ _ _).mpr (.inl ?_), rfl⟩
  have tokens := (Tag.scan_of_walk (by decide) walk).tokens
  rw [scriptsBlock, tokens]
  rfl

/-- Nothing is loaded for this script: the comment on it holds `</scripts>`. -/
theorem scripts_block_lost :
    locate defaultType scriptsPage = .ok [scriptsBlock] ∧
      ∃ error reason,
        Session.transpile { pragma := ['h'], lowering := Mode.strict.lowering } scriptsBlock.text =
          .failed error scriptsScript ∧
        process { pragma := ['h'], lowering := Mode.strict.lowering } Emitter.load true {} [scriptsBlock] =
          ([⟨0, ⟨24, 37⟩, .failed error scriptsScript, .loadFailed (.unembeddable 0 reason)⟩], {}) := by
  have closes : ¬ Embeddable (Transpiled.annotate (.mismatched "scripts".toList ['b'] ⟨9, 13⟩) scriptsScript) := by
    intro embeddable
    have found : Text.containsFolded endWord
        (Transpiled.annotate (.mismatched "scripts".toList ['b'] ⟨9, 13⟩) scriptsScript) = true := by decide +kernel
    exact embeddable (Text.containsFolded_iff.mp found)
  obtain ⟨reason, refused⟩ := load_refused {} scriptsBlock closes
  refine ⟨locate_scripts, _, reason, transpile_scripts, ?_⟩
  rw [process, processBlock, transpile_scripts]
  simp only [Transpiled.executable?, if_true, refused, process]
  rfl

end TagCalls.Page
