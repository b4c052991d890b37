import TagCalls.Proofs.Page.Insertion
import TagCalls.Proofs.Page.Loading

/-!
Pages with code put back into them. If the place of the scripts is in no element, every code is the
content of an element of its own, and a second search finds exactly the blocks that were not loaded.
-/
namespace TagCalls.Page

section
variable {type document : Text} {blocks : List Block} {found : List Element} {emitter : Emitter}

theorem locate_of_elements (type : Text) (searched : elements document = .ok found) :
    locate type document = .ok (blocksFrom 0 (found.filter (isWanted type))) := by
  rw [locate, searched]
  rfl

theorem elements_of_located (located : locate type document = .ok blocks) :
    ∃ found, elements document = .ok found ∧ blocks = blocksFrom 0 (found.filter (isWanted type)) := by
  cases searched : elements document with
  | error error =>
    rw [locate, searched] at located
    cases located
  | ok found =>
    rw [locate_of_elements type searched] at located
    exact ⟨found, rfl, (Except.ok.inj located).symm⟩

theorem stands_of_located {block : Block} (located : locate type document = .ok blocks) (member : block ∈ blocks) :
    ∃ (before : Text) (parts : Parts) (rest : Text) (number : Nat),
      document = before ++ (parts.text ++ rest) ∧ parts.Stands rest ∧
      block = .ofElement number (parts.placed before.bytes) := by
  rcases elements_of_located located with ⟨found, searched, rfl⟩
  rcases mem_blocksFrom member with ⟨element, wanted, number, _, rfl⟩
  rcases (elements_eq_ok_iff document found).mp searched with ⟨segments, walk, rfl⟩
  rcases stands_of_mem_elementsAt walk 0 (List.mem_filter.mp wanted).1 with ⟨before, parts, rest, cut, stands, rfl⟩
  exact ⟨before, parts, rest, number, cut, stands, by rw [Nat.zero_add]⟩

theorem ofElement_placed (number : Nat) (before : Text) (parts : Parts)
    (small : (before ++ parts.text).bytes ≤ Span.maxOffset) :
    Block.ofElement number (parts.placed before.bytes) =
      ⟨number, parts.content,
        ⟨(before ++ parts.opening).bytes, (before ++ (parts.opening ++ parts.content)).bytes⟩,
        ⟨before.bytes, (before ++ parts.text).bytes⟩⟩ := by
  have start : (parts.placed before.bytes).contentStart = (before ++ parts.opening).bytes := by
    simp only [Element.contentStart, Element.opening, Parts.placed, Parts.opening, Text.bytes_append]
    omega
  have content : (parts.placed before.bytes).contentStop = (before ++ (parts.opening ++ parts.content)).bytes := by
    rw [Element.contentStop, start, Text.bytes_append, Text.bytes_append, Text.bytes_append, Nat.add_assoc]
    rfl
  have stop : (parts.placed before.bytes).stop = (before ++ parts.text).bytes := by
    rw [stop_placed, Text.bytes_append]
  have whole := congrArg Text.bytes parts.text_eq
  simp only [Text.bytes_append] at small whole
  rw [Block.ofElement, start, content, stop]
  simp only [Span.of, Text.bytes_append, Parts.placed]
  rw [Span.clamp_of_le (by omega), Span.clamp_of_le (by omega), Span.clamp_of_le (by omega), Span.clamp_of_le small]

theorem spans_of_located {block : Block} (small : document.bytes ≤ Span.maxOffset)
    (located : locate type document = .ok blocks) (member : block ∈ blocks) :
    ∃ (before : Text) (parts : Parts) (rest : Text) (number : Nat),
      document = before ++ (parts.text ++ rest) ∧ parts.Stands rest ∧
      block = ⟨number, parts.content,
        ⟨(before ++ parts.opening).bytes, (before ++ (parts.opening ++ parts.content)).bytes⟩,
        ⟨before.bytes, (before ++ parts.text).bytes⟩⟩ := by
  rcases stands_of_located located member with ⟨before, parts, rest, number, split, stands, rfl⟩
  have size := congrArg Text.bytes split
  rw [← List.append_assoc, Text.bytes_append] at size
  exact ⟨before, parts, rest, number, split, stands, ofElement_placed number before parts (by omega)⟩

theorem starts_of_elements (small : document.bytes ≤ Span.maxOffset) (searched : elements document = .ok found) :
    (∀ element ∈ found, element.start ≤ Span.maxOffset) ∧
      found.Pairwise fun first second => first.start < second.start := by
  rcases (elements_eq_ok_iff document found).mp searched with ⟨segments, walk, rfl⟩
  refine ⟨?_, elementsAt_pairwise 0 segments⟩
  intro element member
  have bound := (bounds_elementsAt 0 segments element member).2
  rw [join_of_walk walk] at bound
  omega

theorem blocks_ascending (small : document.bytes ≤ Span.maxOffset) (located : locate type document = .ok blocks)
    (searched : elements document = .ok found) : blocks.Pairwise Block.Before := by
  rw [locate_of_elements type searched] at located
  cases located
  rcases starts_of_elements small searched with ⟨bounded, increasing⟩
  apply blocksFrom_before
  · intro element member
    exact bounded element (List.mem_filter.mp member).1
  · exact increasing.filter _

theorem starts_of_blocks (small : document.bytes ≤ Span.maxOffset) (located : locate type document = .ok blocks)
    (searched : elements document = .ok found) :
    ∀ block ∈ blocks, block.element.start ∈ found.map (·.start) := by
  rw [locate_of_elements type searched] at located
  cases located
  intro block member
  rcases mem_blocksFrom member with ⟨element, wanted, number, _, rfl⟩
  have inside := (List.mem_filter.mp wanted).1
  rw [start_ofElement _ _ ((starts_of_elements small searched).1 element inside)]
  exact List.mem_map_of_mem inside

/-! ### The whole edit -/

/-- How the elements of a page with code in it follow from those of the page: loaded ones are marked, and
between two of them stand the scripts, in the order of their blocks. -/
def Emitter.Rewrites (emitter : Emitter) (found walked : List Element) : Prop :=
  ∃ (first second : List Element) (ordered : List Loaded), found = first ++ second ∧
    ordered.Perm emitter.loaded ∧
    (ordered.Pairwise fun one two => one.block.element.start < two.block.element.start) ∧
    walked.map Element.parts = first.map (rewritten emitter.covers) ++ ordered.map (generated ·.code) ++
      second.map (rewritten emitter.covers)

theorem finish?_of_walk (emitter : Emitter) {segments : List (Segment Parts)} (walk : Walk document segments)
    (starts : emitter.inPageOrder.map (·.block.element.start) =
      ((elementsAt 0 segments).map (·.start)).filter emitter.covers) :
    emitter.finish? document = some (Emitter.insertScripts
      ((emitter.inPageOrder.map (·.code)).flatMap Emitter.script)
      (Segment.join Parts.text (markAt emitter.covers 0 segments))) := by
  have offsets : emitter.inPageOrder.map (·.block.element.start + elementWord.length) =
      (((elementsAt 0 segments).map (·.start)).filter emitter.covers).map (· + elementWord.length) := by
    rw [← starts, List.map_map]
    rfl
  have marked := mark?_markAt emitter.covers walk 0 0 [] rfl
  rw [List.nil_append, List.nil_append] at marked
  simp only [Emitter.finish?, offsets, marked, List.flatMap_map]
  rfl

theorem elements_finish (small : document.bytes ≤ Span.maxOffset) (located : locate type document = .ok blocks)
    (searched : elements document = .ok found) (holds : emitter.Holds blocks) (apart : Apart document found) :
    ∃ page walked, emitter.finish? document = some page ∧ elements page = .ok walked ∧
      emitter.Rewrites found walked := by
  have ascending := blocks_ascending small located searched
  have starts := Emitter.starts_inPageOrder holds ascending found (starts_of_elements small searched).2
    (starts_of_blocks small located searched)
  have free : ∀ code ∈ emitter.inPageOrder.map (·.code), ¬ endWord <:+: Text.fold code := by
    intro code member
    rcases List.mem_map.mp member with ⟨item, held, rfl⟩
    exact holds.embeddable item (emitter.inPageOrder_perm.mem_iff.mp held)
  rcases (elements_eq_ok_iff document found).mp searched with ⟨segments, walk, rfl⟩
  rcases elements_insertScripts emitter.covers walk apart free with ⟨walked, first, second, again, split, parts⟩
  refine ⟨_, walked, finish?_of_walk emitter walk starts, again, first, second, emitter.inPageOrder, split,
    emitter.inPageOrder_perm, Emitter.inPageOrder_pairwise holds ascending, ?_⟩
  rw [parts, List.map_map]
  rfl

/-! ### The blocks that are left -/

theorem texts_blocksFrom (id : Nat) (found : List Element) :
    (blocksFrom id found).map (·.text) = found.map (·.content) := by
  induction found generalizing id with
  | nil => rfl
  | cons element found ih => rw [blocksFrom, List.map_cons, List.map_cons, ih]; rfl

theorem texts_filter_blocksFrom (keep : Nat → Bool) (id : Nat) (found : List Element)
    (small : ∀ element ∈ found, element.start ≤ Span.maxOffset) :
    ((blocksFrom id found).filter fun block => keep block.element.start).map (·.text) =
      (found.filter fun element => keep element.start).map (·.content) := by
  induction found generalizing id with
  | nil => rfl
  | cons element found ih =>
    have later := ih (id + 1) fun other member => small other (List.mem_cons_of_mem _ member)
    rw [blocksFrom, List.filter_cons, List.filter_cons, start_ofElement _ _ (small element List.mem_cons_self)]
    split
    · rw [List.map_cons, List.map_cons, later]
      rfl
    · exact later

theorem wanted_rewritten (type : Text) (held : Nat → Bool) (found : List Element) :
    ((found.map (rewritten held)).filter fun parts => isWanted type (parts.placed 0)).map (·.content) =
      ((found.filter (isWanted type)).filter fun element => !held element.start).map (·.content) := by
  induction found with
  | nil => rfl
  | cons element found ih =>
    have same : isWanted type (element.parts.placed 0) = isWanted type element := rfl
    rw [List.map_cons, rewritten]
    cases covered : held element.start with
    | true =>
      have left := not_wanted_marked type element.parts 0
      rw [if_pos rfl, List.filter_cons_of_neg (by rw [left]; exact Bool.false_ne_true), ih, List.filter_cons]
      split
      · rw [List.filter_cons_of_neg (by simp [covered])]
      · rfl
    | false =>
      rw [if_neg Bool.false_ne_true, List.filter_cons, same, List.filter_cons]
      split
      · rw [List.filter_cons_of_pos (by simp [covered]), List.map_cons, List.map_cons, ih]
        rfl
      · exact ih

theorem texts_of_rewrites (type : Text) {walked : List Element} (rewrites : emitter.Rewrites found walked) :
    (walked.filter (isWanted type)).map (·.content) =
      ((found.filter (isWanted type)).filter fun element => !emitter.covers element.start).map (·.content) := by
  rcases rewrites with ⟨first, second, ordered, rfl, _, _, parts⟩
  have scripts : (ordered.map (generated ·.code)).filter (fun parts => isWanted type (parts.placed 0)) = [] := by
    apply List.filter_eq_nil_iff.mpr
    intro parts member
    rcases List.mem_map.mp member with ⟨item, _, rfl⟩
    rw [not_wanted_generated]
    exact Bool.false_ne_true
  calc
    (walked.filter (isWanted type)).map (·.content)
        = ((walked.map Element.parts).filter fun parts => isWanted type (parts.placed 0)).map (·.content) := by
      rw [List.filter_map, List.map_map]
      rfl
    _ = (((first ++ second).map (rewritten emitter.covers)).filter fun parts =>
          isWanted type (parts.placed 0)).map (·.content) := by
      rw [parts, List.filter_append, List.filter_append, scripts, List.append_nil, ← List.filter_append,
        List.map_append]
    _ = _ := wanted_rewritten type emitter.covers (first ++ second)

theorem unloaded_texts (small : document.bytes ≤ Span.maxOffset) (located : locate type document = .ok blocks)
    (searched : elements document = .ok found) (holds : emitter.Holds blocks) :
    (blocks.filter fun block => block ∉ emitter.loaded.map (·.block)).map (·.text) =
      ((found.filter (isWanted type)).filter fun element => !emitter.covers element.start).map (·.content) := by
  have ascending := blocks_ascending small located searched
  have same : (blocks.filter fun block => block ∉ emitter.loaded.map (·.block)) =
      blocks.filter fun block => !emitter.covers block.element.start := by
    apply List.filter_congr
    intro block known
    have covered := Emitter.covers_block holds ascending known
    rw [Bool.eq_iff_iff, decide_eq_true_eq, Bool.not_eq_true', ← Bool.not_eq_true, covered]
  rw [same]
  rw [locate_of_elements type searched] at located
  cases located
  apply texts_filter_blocksFrom fun start => !emitter.covers start
  intro element member
  exact (starts_of_elements small searched).1 element (List.mem_filter.mp member).1

end

/-! ### A page with two blocks -/

def sampleItem : Written :=
  ⟨0, "type".toList, some (.double defaultType (by decide)), by decide, written_chars (by decide)⟩

def sampleParts (content : Text) : Parts :=
  ⟨elementWord, renderStart [sampleItem] 0, content, "</script>".toList⟩

def sampleSegments : List (Segment Parts) :=
  .found (sampleParts ['a']) :: .found (sampleParts ['b']) :: bodyWord.map .plain

def samplePage : Text := Segment.join Parts.text sampleSegments

def sampleBlock : Block := ⟨0, ['a'], ⟨24, 25⟩, ⟨0, 34⟩⟩

def otherBlock : Block := ⟨1, ['b'], ⟨58, 59⟩, ⟨34, 68⟩⟩

theorem stands_sample (content : Text) (free : Text.containsFolded endWord content = false) (rest : Text) :
    (sampleParts content).Stands rest where
  word := rfl
  named := rfl
  inner := splitStartTag?_renderStart [sampleItem] 0
  content := Text.not_infix_fold free
  closing := @endTag_bare endWord rfl rest

theorem walk_sample : Walk samplePage sampleSegments := by
  have body : Walk (Segment.join Parts.text (bodyWord.map .plain)) (bodyWord.map .plain) := by
    rw [Segment.join_map_plain]
    exact walk_plain (Text.not_infix_fold (by decide))
  exact .element (stands_sample ['a'] (by decide) _) (.element (stands_sample ['b'] (by decide) _) body)

theorem elements_sample : elements samplePage = .ok (elementsAt 0 sampleSegments) :=
  (elements_eq_ok_iff _ _).mpr ⟨_, walk_sample, rfl⟩

theorem locate_sample : locate defaultType samplePage = .ok [sampleBlock, otherBlock] := by
  have wanted (content : Text) (start : Nat) : isWanted defaultType ((sampleParts content).placed start) = true :=
    (isWanted_renderStart _ [sampleItem] 0 _ rfl).mpr (by decide)
  have split : elementsAt 0 sampleSegments =
      [(sampleParts ['a']).placed 0, (sampleParts ['b']).placed 34] := by decide
  rw [locate_of_elements _ elements_sample, split, List.filter_cons_of_pos (wanted _ _),
    List.filter_cons_of_pos (wanted _ _), List.filter_nil]
  rfl

theorem outside_sample (before after : Text) (last : LastBody samplePage before after) :
    ∀ element ∈ elementsAt 0 sampleSegments,
      ¬ (element.start ≤ before.bytes ∧ before.bytes + bodyWord.bytes ≤ element.stop) := by
  have found : Text.splitLastFolded? bodyWord samplePage = some (samplePage.take 68, bodyWord) := by decide
  rw [(lastBody_iff _ _ _).mpr last] at found
  cases found
  decide

/-- A second search finds the blocks that were not loaded, in their order, and neither a marked element
nor a script. -/
theorem locate_finish (type document : Text) (blocks : List Block) (found : List Element) (emitter : Emitter)
    (small : document.bytes ≤ Span.maxOffset) (located : locate type document = .ok blocks)
    (searched : elements document = .ok found) (loading : emitter.Loading blocks)
    (ended : ∀ element ∈ found, '>' ∈ element.closing)
    (outside : ∀ before after, LastBody document before after → ∀ element ∈ found,
      ¬ (element.start ≤ before.bytes ∧ before.bytes + bodyWord.bytes ≤ element.stop)) :
    ∃ page walked again, emitter.finish? document = some page ∧ elements page = .ok walked ∧
      locate type page = .ok again ∧
      again.map (·.text) = (blocks.filter fun block => block ∉ emitter.loaded.map (·.block)).map (·.text) ∧
      emitter.Rewrites found walked ∧
      (∀ element ∈ found, emitter.covers element.start = true →
        ∀ start, isWanted type ((rewritten emitter.covers element).placed start) = false) ∧
      ∀ item ∈ emitter.loaded, ∀ start, isWanted type ((generated item.code).placed start) = false := by
  have holds := holds_of_loading loading
  have apart : Apart document found := ⟨outside, fun _ => ended⟩
  rcases elements_finish small located searched holds apart with ⟨page, walked, finished, again, rewrites⟩
  refine ⟨page, walked, _, finished, again, locate_of_elements type again, ?_, rewrites, ?_, ?_⟩
  · rw [texts_blocksFrom, texts_of_rewrites type rewrites, unloaded_texts small located searched holds]
  · intro element _ covered start
    rw [rewritten, if_pos covered]
    exact not_wanted_marked type element.parts start
  · intro item _ start
    exact not_wanted_generated type item.code start

theorem locate_finish_sample :
    ∃ emitter page again, Emitter.load {} sampleBlock ['A'] = .ok emitter ∧
      emitter.finish? samplePage = some page ∧ locate defaultType page = .ok again ∧
      again.map (·.text) = [['b']] := by
  have accepted : Emitter.load {} sampleBlock ['A'] = .ok ⟨[⟨sampleBlock, ['A']⟩]⟩ := by decide
  have result := locate_finish defaultType samplePage [sampleBlock, otherBlock] _ _ (by decide) locate_sample
    elements_sample (.load .fresh (by decide) accepted) (by decide) outside_sample
  rcases result with ⟨page, walked, again, finished, _, located, texts, _⟩
  exact ⟨_, page, again, accepted, finished, located, texts⟩

/-- Where the place of the scripts is in no element, every code becomes the content of a plain element of
its own, in the order of the blocks. -/
theorem code_in_own_element (type document : Text) (blocks : List Block) (found : List Element)
    (emitter : Emitter) (small : document.bytes ≤ Span.maxOffset) (located : locate type document = .ok blocks)
    (searched : elements document = .ok found) (loading : emitter.Loading blocks)
    (apart : Apart document found) :
    ∃ (page : Text) (walked : List Element) (ordered : List Loaded),
      emitter.finish? document = some page ∧ elements page = .ok walked ∧
      ordered.Perm emitter.loaded ∧
      (ordered.Pairwise fun one two => one.block.element.start < two.block.element.start) ∧
      ordered.map (generated ·.code) <:+: walked.map Element.parts := by
  have holds := holds_of_loading loading
  rcases elements_finish small located searched holds apart with ⟨page, walked, finished, again, rewrites⟩
  rcases rewrites with ⟨first, second, ordered, _, same, increasing, parts⟩
  refine ⟨page, walked, ordered, finished, again, same, increasing, ?_⟩
  rw [parts]
  exact List.infix_append _ _ _

theorem codes_of_sample :
    ∃ first emitter page walked, Emitter.load {} otherBlock ['B'] = .ok first ∧
      first.load sampleBlock ['A'] = .ok emitter ∧ emitter.finish? samplePage = some page ∧
      elements page = .ok walked ∧ [generated ['A'], generated ['B']] <:+: walked.map Element.parts := by
  have one : Emitter.load {} otherBlock ['B'] = .ok ⟨[⟨otherBlock, ['B']⟩]⟩ := by decide
  have two : Emitter.load ⟨[⟨otherBlock, ['B']⟩]⟩ sampleBlock ['A'] =
      .ok ⟨[⟨otherBlock, ['B']⟩, ⟨sampleBlock, ['A']⟩]⟩ := by decide
  have result := code_in_own_element defaultType samplePage [sampleBlock, otherBlock] _ _ (by decide) locate_sample
    elements_sample (.load (.load .fresh (by decide) one) (by decide) two) ⟨outside_sample, fun _ => by decide⟩
  rcases result with ⟨page, walked, ordered, finished, again, same, increasing, inside⟩
  have order : ordered = [⟨sampleBlock, ['A']⟩, ⟨otherBlock, ['B']⟩] := by
    apply List.Perm.eq_of_pairwise _ increasing (by decide) (same.trans (.swap _ _ []))
    intro first second _ _ below above
    exact absurd below (Nat.lt_asymm above)
  rw [order] at inside
  exact ⟨_, _, page, walked, one, two, finished, again, inside⟩

def swallowing : Text := (sampleParts "\"</body>\"".toList).text

def swallowingBlock : Block := ⟨0, "\"</body>\"".toList, ⟨24, 33⟩, ⟨0, 42⟩⟩

/-- The script goes into that string, and its end tag ends the element around it. -/
def swallowed : List (Segment Parts) :=
  .found ⟨elementWord, (sampleParts []).marked.inner, "\"<script>\nA()\n".toList, "</script>".toList⟩ ::
    "\n</body>\"</script>".toList.map .plain

theorem code_lost_in_element :
    ∃ emitter page walked, locate defaultType swallowing = .ok [swallowingBlock] ∧
      Emitter.load {} swallowingBlock "A()".toList = .ok emitter ∧ emitter.finish? swallowing = some page ∧
      elements page = .ok walked ∧ ∀ item ∈ emitter.loaded, generated item.code ∉ walked.map Element.parts := by
  have walk : Walk swallowing [.found (sampleParts "\"</body>\"".toList)] := by
    have element := Walk.element (stands_sample "\"</body>\"".toList (by decide) []) .done
    rw [List.append_nil] at element
    exact element
  have edited : Walk (Segment.join Parts.text swallowed) swallowed := by
    have stands := stands_marked (stands_sample "\"<script>\nA()\n".toList (by decide)
      "\n</body>\"</script>".toList)
    rw [swallowed, Segment.join_found, Segment.join_map_plain]
    exact .element stands (walk_plain (Text.not_infix_fold (by decide)))
  have accepted : Emitter.load {} swallowingBlock "A()".toList =
      .ok ⟨[⟨swallowingBlock, "A()".toList⟩]⟩ := by decide
  have single : Emitter.inPageOrder ⟨[⟨swallowingBlock, "A()".toList⟩]⟩ =
      [⟨swallowingBlock, "A()".toList⟩] := List.mergeSort_singleton _
  have finished := finish?_of_walk ⟨[⟨swallowingBlock, "A()".toList⟩]⟩ walk (by rw [single]; decide)
  have page : Emitter.insertScripts (Emitter.script "A()".toList) (Segment.join Parts.text
      (markAt (Emitter.covers ⟨[⟨swallowingBlock, "A()".toList⟩]⟩) 0
        [.found (sampleParts "\"</body>\"".toList)])) = Segment.join Parts.text swallowed := by decide
  rw [single, List.map_singleton, List.flatMap_singleton, page] at finished
  refine ⟨_, _, elementsAt 0 swallowed, ?_, accepted, finished, (elements_eq_ok_iff _ _).mpr ⟨_, edited, rfl⟩,
    by decide⟩
  have wanted : isWanted defaultType ((sampleParts "\"</body>\"".toList).placed 0) = true :=
    (isWanted_renderStart _ [sampleItem] 0 _ rfl).mpr (by decide)
  rw [locate_of_elements _ ((elements_eq_ok_iff _ _).mpr ⟨_, walk, rfl⟩), elementsAt,
    List.filter_cons_of_pos wanted]
  rfl

end TagCalls.Page
