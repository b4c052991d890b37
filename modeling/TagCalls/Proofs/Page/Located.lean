import TagCalls.Proofs.Page.Emitted
import TagCalls.Proofs.Text.Offset

/-!
What a search of a page promises, however the page is written. The blocks it finds are numbered in order,
lie apart and are cut at the right places. An error names a script element that is not finished. Main
statement: `locate_sound`.
-/
namespace TagCalls

/-- What a text has from a byte offset on. The offset lies between two characters, or at an end. -/
def Text.RestAt (t : Text) (offset : Nat) (rest : Text) : Prop :=
  ∃ before, t = before ++ rest ∧ before.bytes = offset

namespace Page

/-! ### The inside of a start tag -/

/-- A start tag behind its name and before its `>`: only a quoted value holds a `>`, and every quote is
closed by the same one. -/
inductive StartInner : Text → Prop
  | nil : StartInner []
  | plain {c : Char} {t : Text} : c ∉ ['>', '"', '\''] → StartInner t → StartInner (c :: t)
  | quoted {quote : Char} {value t : Text} : quote = '"' ∨ quote = '\'' → quote ∉ value → StartInner t →
      StartInner (quote :: (value ++ quote :: t))

theorem splitStartTag?_of_inner {inner : Text} (whole : StartInner inner) (rest : Text) :
    splitStartTag? none (inner ++ '>' :: rest) = some (inner, rest) := by
  induction whole with
  | nil => simp [splitStartTag?]
  | @plain c t plain _ ih =>
    have here : ∀ d ∈ [c], d ∉ ['>', '"', '\''] := fun d member => by rwa [List.mem_singleton.mp member]
    exact splitStartTag?_plain here ih
  | @quoted quote value t isQuote free _ ih =>
    have read := splitStartTag?_quoted ⟨quote, value, isQuote, free⟩ ih
    simpa [Quoted.render] using read

def StartLeft : Option Char → Text → Prop
  | none, t => StartInner t
  | some quote, t => ∃ value more, t = value ++ quote :: more ∧ quote ∉ value ∧ StartInner more

theorem startLeft_of_split {quote : Option Char} {t inner rest : Text}
    (found : splitStartTag? quote t = some (inner, rest)) : StartLeft quote inner := by
  induction t generalizing quote inner with
  | nil => cases quote <;> cases found
  | cons c t ih =>
    cases quote with
    | some quote =>
      rcases Option.map_eq_some_iff.mp found with ⟨⟨tail, after⟩, deeper, same⟩
      cases same
      by_cases closes : c = quote
      · rw [if_pos closes] at deeper
        exact ⟨[], tail, by rw [closes, List.nil_append], List.not_mem_nil, ih deeper⟩
      · rw [if_neg closes] at deeper
        rcases ih deeper with ⟨value, more, rfl, free, inside⟩
        exact ⟨c :: value, more, rfl, by simp [Ne.symm closes, free], inside⟩
    | none =>
      by_cases closes : c = '>'
      · rw [splitStartTag?, if_pos closes] at found
        cases found
        exact .nil
      · rw [splitStartTag?, if_neg closes] at found
        rcases Option.map_eq_some_iff.mp found with ⟨⟨tail, after⟩, deeper, same⟩
        cases same
        by_cases opens : c = '"' ∨ c = '\''
        · rw [if_pos opens] at deeper
          rcases ih deeper with ⟨value, more, rfl, free, inside⟩
          exact .quoted opens free inside
        · rw [if_neg opens] at deeper
          exact .plain (by simp [closes, not_or.mp opens]) (ih deeper)

theorem splitStartTag?_eq_some_iff {t inner rest : Text} :
    splitStartTag? none t = some (inner, rest) ↔ t = inner ++ '>' :: rest ∧ StartInner inner := by
  constructor
  · intro found
    exact ⟨splitStartTag?_eq_some found, startLeft_of_split found⟩
  · intro cut
    rw [cut.1]
    exact splitStartTag?_of_inner cut.2 rest

theorem nameEnds_iff (t : Text) :
    nameEnds t = true ↔ ∀ c ∈ t.head?, c ∈ [' ', '\t', '\n', '\r', '\x0c', '>', '/'] := by
  cases t with
  | nil => simp [nameEnds]
  | cons c t => simp [nameEnds, Text.isAsciiBlank, or_assoc]

/-! ### Blocks in their page -/

/-- A block is cut out of the page as the content of a script element. -/
structure Block.Sound (document : Text) (block : Block) : Prop where
  inside : block.element.start < block.content.start ∧ block.content.start ≤ block.content.stop ∧
    block.content.stop < block.element.stop
  boundary : ∀ offset ∈ [block.element.start, block.content.start, block.content.stop, block.element.stop],
    ∃ rest, document.RestAt offset rest
  text : document.slice? block.content = some block.text
  free : ¬ endWord <:+: Text.fold block.text
  /-- The start tag goes from the start of the element up to the content. -/
  opened : ∃ word inner rest, document.RestAt block.element.start (word ++ (inner ++ '>' :: rest)) ∧
    Text.fold word = elementWord ∧ StartInner inner ∧ document.RestAt block.content.start rest
  /-- The end tag goes from the content up to its `>`, or up to the end of the page. -/
  closed : ∃ rest, document.RestAt block.content.stop rest ∧ endWord <+: Text.fold rest ∧
    ((∃ tag behind, rest = tag ++ '>' :: behind ∧ '>' ∉ tag ∧ document.RestAt block.element.stop behind) ∨
      '>' ∉ rest ∧ block.element.stop = document.bytes)

structure Located (document : Text) (blocks : List Block) : Prop where
  numbered : blocks.map (·.id) = List.range blocks.length
  apart : blocks.Pairwise fun first second => first.element.stop ≤ second.element.start
  sound : ∀ block ∈ blocks, block.Sound document

theorem bracket_not_mem {name : Text} (folded : Text.fold name = endWord) : '>' ∉ name := by
  intro member
  have inside := mem_fold member
  rw [folded] at inside
  exact absurd inside (by decide)

theorem EndTag.begins {closing rest : Text} (tag : EndTag closing rest) :
    ∃ name tail, closing = name ++ tail ∧ Text.fold name = endWord := by
  cases tag with
  | ended folded _ => exact ⟨_, _, rfl, folded⟩
  | cut folded _ => exact ⟨_, _, rfl, folded⟩

theorem EndTag.ends {closing rest : Text} (tag : EndTag closing rest) :
    (∃ front, closing = front ++ ['>'] ∧ '>' ∉ front) ∨ '>' ∉ closing ∧ rest = [] := by
  have free {name inner : Text} (folded : Text.fold name = endWord) (plain : '>' ∉ inner) : '>' ∉ name ++ inner := by
    intro member
    rcases List.mem_append.mp member with inName | inside
    · exact bracket_not_mem folded inName
    · exact plain inside
  cases tag with
  | ended folded plain => exact .inl ⟨_, (List.append_assoc _ _ _).symm, free folded plain⟩
  | cut folded plain => exact .inr ⟨free folded plain, rfl⟩

theorem bytes_opening_pos (parts : Parts) : 0 < parts.opening.bytes := by
  have nonempty : 0 < parts.opening.length := List.length_pos_of_mem (a := '>') (by simp [Parts.opening])
  exact Nat.lt_of_lt_of_le nonempty (Text.length_le_bytes _)

theorem EndTag.bytes_pos {closing rest : Text} (tag : EndTag closing rest) : 0 < closing.bytes := by
  rcases tag.begins with ⟨name, tail, rfl, folded⟩
  have size : name.bytes = endWord.bytes := by rw [← Text.bytes_fold, folded]
  rw [Text.bytes_append, size]
  exact Nat.lt_of_lt_of_le (by decide) (Nat.le_add_right _ _)

theorem sound_of_located {type document : Text} {blocks : List Block} {block : Block}
    (small : document.bytes ≤ Span.maxOffset) (located : locate type document = .ok blocks)
    (member : block ∈ blocks) : block.Sound document := by
  rcases spans_of_located small located member with ⟨before, parts, rest, number, split, stands, rfl⟩
  have front : document = before ++ parts.opening ++ (parts.content ++ (parts.closing ++ rest)) := by
    rw [split, parts.text_eq]
    simp only [List.append_assoc]
  have middle : document = before ++ (parts.opening ++ parts.content) ++ (parts.closing ++ rest) := by
    rw [front]
    simp only [List.append_assoc]
  have back : document = before ++ parts.text ++ rest := by rw [split, List.append_assoc]
  refine ⟨?_, ?_, ?_, stands.content, ?_, ?_⟩
  · have opening := bytes_opening_pos parts
    have closing := stands.closing.bytes_pos
    simp only [parts.text_eq, Text.bytes_append]
    omega
  · intro offset member
    simp only [List.mem_cons, List.not_mem_nil, or_false] at member
    rcases member with rfl | rfl | rfl | rfl
    · exact ⟨_, before, split, rfl⟩
    · exact ⟨_, _, front, rfl⟩
    · exact ⟨_, _, middle, rfl⟩
    · exact ⟨_, _, back, rfl⟩
  · have sliced : document = before ++ parts.opening ++ parts.content ++ (parts.closing ++ rest) :=
      front.trans (List.append_assoc _ _ _).symm
    rw [← List.append_assoc]
    exact Text.slice?_eq_some_iff.mpr ⟨_, _, sliced, rfl⟩
  · refine ⟨parts.word, parts.inner, parts.content ++ (parts.closing ++ rest), ⟨before, ?_, rfl⟩, stands.word,
      startLeft_of_split stands.inner, _, front, rfl⟩
    rw [front, Parts.opening]
    simp
  · rcases stands.closing.begins with ⟨name, tail, shape, folded⟩
    refine ⟨parts.closing ++ rest, ⟨_, middle, rfl⟩, ?_, ?_⟩
    · rw [shape, List.append_assoc]
      exact Text.prefix_fold_append folded _
    · rcases stands.closing.ends with ⟨tag, same, plain⟩ | ⟨plain, rfl⟩
      · exact .inl ⟨tag, rest, by rw [same]; simp, plain, _, back, rfl⟩
      · rw [List.append_nil]
        exact .inr ⟨plain, by rw [back, List.append_nil]⟩

/-! ### The order of the blocks -/

theorem ids_blocksFrom (id : Nat) (found : List Element) :
    (blocksFrom id found).map (·.id) = List.range' id (blocksFrom id found).length := by
  induction found generalizing id with
  | nil => rfl
  | cons element found ih =>
    rw [blocksFrom, List.map_cons, ih, List.length_cons, List.range'_succ]
    rfl

theorem blocksFrom_apart (id : Nat) (found : List Element)
    (apart : found.Pairwise fun first second => first.stop ≤ second.start) :
    (blocksFrom id found).Pairwise fun first second => first.element.stop ≤ second.element.start := by
  -- Offsets that are cut down stay in order.
  apply blocksFrom_pairwise _ id apart
  intro _ _ first second _ order
  simp only [Block.ofElement, Span.of, Span.clamp]
  omega

theorem located_of_ok {type document : Text} {blocks : List Block} (small : document.bytes ≤ Span.maxOffset)
    (located : locate type document = .ok blocks) : Located document blocks := by
  refine ⟨?_, ?_, ?_⟩
  · rcases elements_of_located located with ⟨found, _, rfl⟩
    rw [ids_blocksFrom, List.range_eq_range']
  · rcases elements_of_located located with ⟨found, searched, rfl⟩
    rcases (elements_eq_ok_iff document found).mp searched with ⟨segments, _, rfl⟩
    exact blocksFrom_apart 0 _ ((elementsAt_apart 0 segments).filter _)
  · intro block member
    exact sound_of_located small located member

/-! ### Elements that are not finished -/

inductive Unfinished (offset : Nat) : Text → LocateError → Prop
  | startTag {word behind : Text} : Text.fold word = elementWord →
      (∀ c ∈ behind.head?, c ∈ [' ', '\t', '\n', '\r', '\x0c', '>', '/']) →
      (∀ inner inside, behind = inner ++ '>' :: inside → ¬ StartInner inner) →
      Unfinished offset (word ++ behind) (.unterminatedStartTag offset)
  | element {word behind inner inside : Text} : Text.fold word = elementWord →
      (∀ c ∈ behind.head?, c ∈ [' ', '\t', '\n', '\r', '\x0c', '>', '/']) →
      behind = inner ++ '>' :: inside → StartInner inner → ¬ endWord <:+: Text.fold inside →
      Unfinished offset (word ++ behind) (.missingEndTag offset)

theorem elementsFrom_begins (offset : Nat) {t : Text} (begins : Begins t) :
    (∃ error, elementsFrom offset t = .error error ∧ Unfinished offset t error) ∨
      ∃ parts rest, Parts.Stands parts rest ∧ t = parts.text ++ rest := by
  rcases begins with ⟨word, behind, rfl, folded, named⟩
  have search := elementsFrom_eq offset (word ++ behind)
  rw [Text.splitFolded?_head folded behind] at search
  simp only [named, if_true, Text.bytes, Nat.add_zero] at search
  have ends := (nameEnds_iff behind).mp named
  cases opened : splitStartTag? none behind with
  | none =>
    rw [opened] at search
    refine .inl ⟨_, search, .startTag folded ends ?_⟩
    intro inner inside cut whole
    rw [splitStartTag?_eq_some_iff.mpr ⟨cut, whole⟩] at opened
    cases opened
  | some start =>
    rcases start with ⟨inner, inside⟩
    cases closed : Text.splitFolded? endWord inside with
    | none =>
      simp only [opened, closed] at search
      rcases splitStartTag?_eq_some_iff.mp opened with ⟨cut, whole⟩
      exact .inl ⟨_, search, .element folded ends cut whole (Text.splitFolded?_eq_none_iff.mp closed)⟩
    | some stop =>
      rcases stop with ⟨content, name, after⟩
      rcases stands_of_search folded named opened closed with ⟨stands, cut⟩
      exact .inr ⟨_, _, stands, cut⟩

theorem unfinished_of_error (offset : Nat) (t : Text) (error : LocateError)
    (failed : elementsFrom offset t = .error error) :
    ∃ before rest, t = before ++ rest ∧ Unfinished (offset + before.bytes) rest error := by
  -- A step takes one character or a whole element, so the induction is on the length.
  induction size : t.length using Nat.strongRecOn generalizing t offset with
  | ind n ih =>
    by_cases begins : Begins t
    · rcases elementsFrom_begins offset begins with ⟨other, search, unfinished⟩ | ⟨parts, rest, stands, rfl⟩
      · rw [failed] at search
        cases search
        exact ⟨[], t, rfl, unfinished⟩
      · rw [elementsFrom_element offset parts rest stands] at failed
        cases deeper : elementsFrom (offset + parts.text.bytes) rest with
        | ok found =>
          rw [deeper] at failed
          cases failed
        | error other =>
          rw [deeper] at failed
          cases failed
          have less : rest.length < n := by
            rw [← size, Parts.text]
            simp only [List.length_append, List.length_cons]
            omega
          rcases ih _ less _ rest deeper rfl with ⟨before, behind, rfl, unfinished⟩
          rw [Nat.add_assoc, ← Text.bytes_append] at unfinished
          exact ⟨parts.text ++ before, behind, by rw [List.append_assoc], unfinished⟩
    · cases t with
      | nil =>
        rw [elementsFrom_of_walk .done] at failed
        cases failed
      | cons c t =>
        rw [elementsFrom_plain offset c t begins] at failed
        rcases ih t.length (by rw [← size]; exact Nat.lt_succ_self _) _ t failed rfl with
          ⟨before, rest, rfl, unfinished⟩
        rw [Nat.add_assoc] at unfinished
        exact ⟨c :: before, rest, rfl, unfinished⟩

/-- On every page the search either finds blocks that are numbered in order, lie apart and are cut at the
right places, or names by its offset a script element that is not finished. -/
theorem locate_sound (type document : Text) (small : document.bytes ≤ Span.maxOffset) :
    (∀ blocks, locate type document = .ok blocks → Located document blocks) ∧
      ∀ error, locate type document = .error error →
        ∃ before rest, document = before ++ rest ∧ Unfinished before.bytes rest error := by
  refine ⟨fun blocks located => located_of_ok small located, ?_⟩
  intro error failed
  cases searched : elements document with
  | ok found =>
    rw [locate_of_elements type searched] at failed
    cases failed
  | error other =>
    rw [locate, searched] at failed
    cases failed
    rcases unfinished_of_error 0 document error searched with ⟨before, rest, split, unfinished⟩
    rw [Nat.zero_add] at unfinished
    exact ⟨before, rest, split, unfinished⟩

def accented : Text := "é<SCRIPT type=text/jsx>ü</Script".toList

def accentedBlock : Block := ⟨0, ['ü'], ⟨24, 26⟩, ⟨2, 34⟩⟩

def unended : Text := "é<script title='>'>ü".toList

theorem locate_accented :
    locate defaultType accented = .ok [accentedBlock] ∧ Located accented [accentedBlock] ∧
      locate defaultType unended = .error (.missingEndTag 2) ∧
      ∃ before rest, unended = before ++ rest ∧ Unfinished before.bytes rest (.missingEndTag 2) := by
  have found : (locate defaultType accented).toOption = some [accentedBlock] := by decide +kernel
  have located : locate defaultType accented = .ok [accentedBlock] := by
    cases result : locate defaultType accented with
    | error error =>
      rw [result] at found
      cases found
    | ok blocks =>
      rw [result] at found
      cases found
      rfl
  have stopped : elements unended = .error (.missingEndTag 2) := by
    rw [elements, elementsFrom_eq]
    rfl
  have failed : locate defaultType unended = .error (.missingEndTag 2) := by
    rw [locate, stopped]
    rfl
  exact ⟨located, (locate_sound defaultType accented (by decide)).1 _ located, failed,
    (locate_sound defaultType unended (by decide)).2 _ failed⟩

end Page
end TagCalls
