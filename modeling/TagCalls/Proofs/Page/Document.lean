import TagCalls.Proofs.Page.StartTag

/-!
Pages put together from script elements with gaps between them, and the search for scripts as the
inverse of writing such a page. Main statement: `locate_render`, each wanted element comes back as a
block with its content and the ranges at which it was written.
-/
namespace TagCalls.Page

structure Gap where
  text : Text
  free : ¬ elementWord <:+: Text.fold text

structure WrittenElement where
  word : Text
  items : List Written
  spaces : Nat
  content : Text
  name : Text
  word_folded : Text.fold word = elementWord
  content_free : ¬ endWord <:+: Text.fold content
  name_folded : Text.fold name = endWord

namespace WrittenElement

def opening (element : WrittenElement) : Text :=
  element.word ++ renderStart element.items element.spaces ++ ['>']

def render (element : WrittenElement) : Text :=
  element.opening ++ element.content ++ element.name ++ ['>']

def block (element : WrittenElement) (id base : Nat) : Block where
  id
  text := element.content
  content := ⟨base + element.opening.bytes, base + (element.opening ++ element.content).bytes⟩
  element := ⟨base, base + element.render.bytes⟩

def parts (element : WrittenElement) : Parts :=
  ⟨element.word, renderStart element.items element.spaces, element.content, element.name ++ ['>']⟩

end WrittenElement

structure Document where
  head : Gap
  tail : List (WrittenElement × Gap)

def renderTail (tail : List (WrittenElement × Gap)) : Text :=
  tail.flatMap fun (element, gap) => element.render ++ gap.text

def placesFrom : Nat → List (WrittenElement × Gap) → List (Nat × WrittenElement)
  | _, [] => []
  | base, (element, gap) :: tail =>
    (base, element) :: placesFrom (base + (element.render ++ gap.text).bytes) tail

namespace Document

def render (document : Document) : Text := document.head.text ++ renderTail document.tail

def places (document : Document) : List (Nat × WrittenElement) :=
  placesFrom document.head.text.bytes document.tail

def blocks (type : Text) (document : Document) : List Block :=
  (document.places.filter fun place => Wanted type place.2.items).zipIdx.map fun (place, id) =>
    place.2.block id place.1

end Document

/-! ### The walk of a written page -/

theorem text_parts (element : WrittenElement) : element.parts.text = element.render := by
  simp [WrittenElement.parts, Parts.text, WrittenElement.render, WrittenElement.opening]

theorem nameEnds_renderStart (items : List Written) (spaces : Nat) :
    nameEnds (renderStart items spaces ++ ['>']) = true := by
  cases shape : renderStart items spaces with
  | nil => rfl
  | cons c t =>
    obtain rfl := renderStart_head items spaces c (by rw [shape]; rfl)
    rfl

theorem stands_written (element : WrittenElement) (rest : Text) : element.parts.Stands rest where
  word := element.word_folded
  named := nameEnds_renderStart element.items element.spaces
  inner := splitStartTag?_renderStart element.items element.spaces
  content := element.content_free
  closing := endTag_bare element.name_folded rest

def segmentsOf (tail : List (WrittenElement × Gap)) : List (Segment Parts) :=
  tail.flatMap fun (element, gap) => .found element.parts :: gap.text.map .plain

theorem walk_renderTail (tail : List (WrittenElement × Gap)) :
    Walk (renderTail tail) (segmentsOf tail) ∧ ∀ c ∈ (renderTail tail).head?, c = '<' := by
  induction tail with
  | nil => exact ⟨.done, fun _ head => by cases head⟩
  | cons piece tail ih =>
    rcases piece with ⟨element, gap⟩
    have behind := walk_gap gap.free ih.2 ih.1
    have whole := Walk.element (stands_written element _) behind
    have split : renderTail ((element, gap) :: tail) = element.parts.text ++ (gap.text ++ renderTail tail) := by
      simp [renderTail, text_parts]
    have bracket := @head_of_word element.word (renderStart element.items element.spaces ++
      '>' :: (element.content ++ (element.name ++ ['>']) ++ (gap.text ++ renderTail tail))) element.word_folded
    rw [split]
    refine ⟨whole, ?_⟩
    simpa [Parts.text, WrittenElement.parts] using bracket

theorem walk_render (document : Document) :
    Walk document.render (document.head.text.map .plain ++ segmentsOf document.tail) := by
  have tail := walk_renderTail document.tail
  exact walk_gap document.head.free tail.2 tail.1

theorem elementsAt_segmentsOf (base : Nat) (tail : List (WrittenElement × Gap)) :
    elementsAt base (segmentsOf tail) =
      (placesFrom base tail).map fun place => place.2.parts.placed place.1 := by
  induction tail generalizing base with
  | nil => rfl
  | cons piece tail ih =>
    rcases piece with ⟨element, gap⟩
    have split : segmentsOf ((element, gap) :: tail) =
        .found element.parts :: (gap.text.map .plain ++ segmentsOf tail) := rfl
    rw [split, elementsAt, elementsAt_append, elementsAt_plain, List.nil_append, Segment.join_map_plain, ih,
      placesFrom, List.map_cons, text_parts, Text.bytes_append, Nat.add_assoc]

theorem elements_render (document : Document) :
    elements document.render = .ok (document.places.map fun place => place.2.parts.placed place.1) := by
  apply (elements_eq_ok_iff _ _).mpr
  refine ⟨_, walk_render document, ?_⟩
  rw [elementsAt_append, elementsAt_plain, List.nil_append, Segment.join_map_plain, Nat.zero_add,
    elementsAt_segmentsOf]
  rfl

/-! ### Places and blocks -/

theorem placesFrom_cut (base : Nat) (tail : List (WrittenElement × Gap)) (place : Nat × WrittenElement)
    (member : place ∈ placesFrom base tail) :
    ∃ before after, renderTail tail = before ++ place.2.render ++ after ∧ base + before.bytes = place.1 := by
  induction tail generalizing base with
  | nil => cases member
  | cons piece tail ih =>
    rcases piece with ⟨element, gap⟩
    have split : renderTail ((element, gap) :: tail) = element.render ++ gap.text ++ renderTail tail := rfl
    rcases List.mem_cons.mp member with rfl | later
    · exact ⟨[], gap.text ++ renderTail tail, by simp [split], rfl⟩
    · rcases ih _ later with ⟨before, after, cut, offset⟩
      refine ⟨element.render ++ gap.text ++ before, after, ?_, ?_⟩
      · rw [split, cut]
        simp only [List.append_assoc]
      · rw [← offset, Text.bytes_append _ before, Nat.add_assoc]

theorem places_cut (document : Document) (place : Nat × WrittenElement) (member : place ∈ document.places) :
    ∃ before after, document.render = before ++ place.2.render ++ after ∧ before.bytes = place.1 := by
  rcases placesFrom_cut _ _ place member with ⟨before, after, cut, offset⟩
  refine ⟨document.head.text ++ before, after, ?_, ?_⟩
  · rw [Document.render, cut]
    simp only [List.append_assoc]
  · rw [Text.bytes_append, offset]

theorem ofElement_written (element : WrittenElement) (id base : Nat)
    (small : base + element.render.bytes ≤ Span.maxOffset) :
    Block.ofElement id (element.parts.placed base) = element.block id base := by
  have stop : (element.parts.placed base).stop = base + element.render.bytes := by
    rw [stop_placed, text_parts]
  have contentStart : (element.parts.placed base).contentStart = base + element.opening.bytes := rfl
  have contentStop : (element.parts.placed base).contentStop =
      base + (element.opening ++ element.content).bytes := by
    rw [Text.bytes_append, ← Nat.add_assoc]
    rfl
  have whole : element.render.bytes =
      (element.opening ++ element.content).bytes + (element.name ++ ['>']).bytes := by
    rw [← Text.bytes_append]
    simp [WrittenElement.render]
  have front := Text.bytes_append element.opening element.content
  rw [Block.ofElement, WrittenElement.block, Span.of, Span.of, stop, contentStart, contentStop,
    Span.clamp_of_le small, Span.clamp_of_le (by omega), Span.clamp_of_le (by omega)]
  have start : (element.parts.placed base).start = base := rfl
  rw [start, Span.clamp_of_le (by omega)]
  rfl

theorem blocksFrom_map {α : Type} (place : α → Element) (id : Nat) (found : List α) :
    blocksFrom id (found.map place) = (found.zipIdx id).map fun (value, id) => .ofElement id (place value) := by
  induction found generalizing id with
  | nil => rfl
  | cons value found ih => rw [List.map_cons, blocksFrom, ih, List.zipIdx_cons, List.map_cons]

/-- Searching a written page gives its wanted elements, in order and numbered from 0, at the offsets
at which they were written. -/
theorem locate_render (type : Text) (document : Document) (small : document.render.bytes ≤ Span.maxOffset) :
    locate type document.render = .ok (document.blocks type) ∧
    ∀ place ∈ document.places, ∃ before after,
      document.render = before ++ place.2.render ++ after ∧ before.bytes = place.1 := by
  refine ⟨?_, places_cut document⟩
  have wanted : (document.places.map fun place => place.2.parts.placed place.1).filter (isWanted type) =
      (document.places.filter fun place => Wanted type place.2.items).map fun place =>
        place.2.parts.placed place.1 := by
    rw [List.filter_map]
    congr 1
    apply List.filter_congr
    intro place _
    have same := isWanted_renderStart type place.2.items place.2.spaces (place.2.parts.placed place.1) rfl
    rw [Function.comp_apply, Bool.eq_iff_iff, same, decide_eq_true_eq]
  rw [locate, elements_render, Except.map, wanted, blocksFrom_map, Document.blocks]
  congr 1
  apply List.map_congr_left
  intro numbered member
  rcases numbered with ⟨place, id⟩
  have inside : place ∈ document.places :=
    (List.mem_filter.mp (List.fst_mem_of_mem_zipIdx member)).1
  rcases places_cut document place inside with ⟨before, after, cut, offset⟩
  apply ofElement_written
  rw [← offset]
  rw [cut, Text.bytes_append, Text.bytes_append] at small
  omega

/-- Two elements behind a character of two bytes. The content of the first looks like a start tag, and a
value of the second holds a `>`. -/
def sampleDocument : Document where
  head := ⟨"é".toList, Text.not_infix_fold (by decide)⟩
  tail :=
    [({ word := "<script".toList
        items := []
        spaces := 0
        content := "<script type=x>".toList
        name := "</script".toList
        word_folded := rfl
        content_free := Text.not_infix_fold (by decide)
        name_folded := rfl }, ⟨[], Text.not_infix_fold (by decide)⟩),
      ({ word := "<SCRIPT".toList
         items :=
          [⟨0, "note".toList, some ⟨'\'', "a>b".toList, .inr rfl, by decide⟩, by decide,
              written_chars (by decide)⟩,
            ⟨1, "Type".toList, some (.double " X ".toList (by decide)), by decide, written_chars (by decide)⟩]
         spaces := 1
         content := "b".toList
         name := "</Script".toList
         word_folded := rfl
         content_free := Text.not_infix_fold (by decide)
         name_folded := rfl }, ⟨"\n".toList, Text.not_infix_fold (by decide)⟩)]

theorem locate_sampleDocument :
    sampleDocument.render.bytes ≤ Span.maxOffset ∧
      sampleDocument.render =
        "é<script><script type=x></script><SCRIPT note='a>b'  Type=\" X \" >b</Script>\n".toList ∧
      locate "x".toList sampleDocument.render = .ok [⟨0, "b".toList, ⟨66, 67⟩, ⟨34, 76⟩⟩] := by
  have small : sampleDocument.render.bytes ≤ Span.maxOffset := by decide
  refine ⟨small, by decide, ?_⟩
  rw [(locate_render "x".toList sampleDocument small).1]
  rfl

end TagCalls.Page
