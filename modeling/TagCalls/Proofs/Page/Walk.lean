import TagCalls.Page.Element
import TagCalls.Proofs.Text.Lexeme
import TagCalls.Proofs.Text.Search
import TagCalls.Proofs.Text.Segment

/-!
A page as a walk: one segment for each character outside script elements and one for each element.
The search jumps from one `<script` to the next, the walk looks at every character. Main statement:
`elements_eq_ok_iff`, the search succeeds exactly on the pages that have a walk, with its elements.
-/
namespace TagCalls.Page

structure Parts where
  word : Text
  inner : Text
  content : Text
  closing : Text
  deriving DecidableEq, Repr

def Element.parts (element : Element) : Parts :=
  ⟨element.word, element.inner, element.content, element.closing⟩

namespace Parts

def placed (start : Nat) (parts : Parts) : Element :=
  ⟨start, parts.word, parts.inner, parts.content, parts.closing⟩

def text (parts : Parts) : Text :=
  parts.word ++ (parts.inner ++ '>' :: (parts.content ++ parts.closing))

def opening (parts : Parts) : Text := parts.word ++ (parts.inner ++ ['>'])

theorem text_eq (parts : Parts) : parts.text = parts.opening ++ (parts.content ++ parts.closing) := by
  simp [text, opening]

end Parts

theorem stop_placed (start : Nat) (parts : Parts) :
    (parts.placed start).stop = start + parts.text.bytes := by
  simp only [Element.stop, Element.contentStop, Element.contentStart, Element.opening, Parts.placed,
    Parts.text, Text.bytes_append, Text.bytes]
  omega

/-- A script element begins at the head of this text, whether or not it ends. -/
def Begins (t : Text) : Prop :=
  ∃ word behind, t = word ++ behind ∧ Text.fold word = elementWord ∧ nameEnds behind = true

/-- An end tag with what follows it: up to its `>`, or up to the end of the page. -/
inductive EndTag : Text → Text → Prop
  | ended {name inner rest : Text} : Text.fold name = endWord → '>' ∉ inner →
      EndTag (name ++ (inner ++ ['>'])) rest
  | cut {name inner : Text} : Text.fold name = endWord → '>' ∉ inner → EndTag (name ++ inner) []

/-- These parts are read at the head of a text, and the rest follows them. -/
structure Parts.Stands (parts : Parts) (rest : Text) : Prop where
  word : Text.fold parts.word = elementWord
  named : nameEnds (parts.inner ++ ['>']) = true
  inner : splitStartTag? none (parts.inner ++ ['>']) = some (parts.inner, [])
  content : ¬ endWord <:+: Text.fold parts.content
  closing : EndTag parts.closing rest

inductive Walk : Text → List (Segment Parts) → Prop
  | done : Walk [] []
  | plain {c : Char} {t : Text} {segments : List (Segment Parts)} :
      ¬ Begins (c :: t) → Walk t segments → Walk (c :: t) (.plain c :: segments)
  | element {parts : Parts} {rest : Text} {segments : List (Segment Parts)} :
      parts.Stands rest → Walk rest segments → Walk (parts.text ++ rest) (.found parts :: segments)

def elementsAt : Nat → List (Segment Parts) → List Element
  | _, [] => []
  | base, .plain c :: segments => elementsAt (base + c.utf8Size) segments
  | base, .found parts :: segments => parts.placed base :: elementsAt (base + parts.text.bytes) segments

theorem join_of_walk {t : Text} {segments : List (Segment Parts)} (walk : Walk t segments) :
    Segment.join Parts.text segments = t := by
  induction walk with
  | done => rfl
  | plain _ _ ih => rw [Segment.join_plain, ih]
  | element _ _ ih => rw [Segment.join_found, ih]

theorem stands_of_mem_elementsAt {t : Text} {segments : List (Segment Parts)} (walk : Walk t segments)
    (base : Nat) {element : Element} (member : element ∈ elementsAt base segments) :
    ∃ (before : Text) (parts : Parts) (rest : Text), t = before ++ (parts.text ++ rest) ∧ parts.Stands rest ∧
      element = parts.placed (base + before.bytes) := by
  induction walk generalizing base with
  | done => cases member
  | @plain c t segments _ _ ih =>
    rcases ih (base + c.utf8Size) member with ⟨before, parts, rest, rfl, stands, rfl⟩
    exact ⟨c :: before, parts, rest, rfl, stands, by rw [Text.bytes, Nat.add_assoc]⟩
  | @element first t segments stands _ ih =>
    rcases List.mem_cons.mp member with rfl | later
    · exact ⟨[], first, t, rfl, stands, rfl⟩
    · rcases ih (base + first.text.bytes) later with ⟨before, parts, rest, rfl, inside, rfl⟩
      exact ⟨first.text ++ before, parts, rest, by rw [List.append_assoc], inside,
        by rw [Text.bytes_append, Nat.add_assoc]⟩

theorem elementsAt_append (base : Nat) (first second : List (Segment Parts)) :
    elementsAt base (first ++ second) =
      elementsAt base first ++ elementsAt (base + (Segment.join Parts.text first).bytes) second := by
  induction first generalizing base with
  | nil => rfl
  | cons segment first ih =>
    cases segment with
    | plain c =>
      rw [List.cons_append, elementsAt, ih, Segment.join_plain, Text.bytes, Nat.add_assoc]
      rfl
    | found parts =>
      rw [List.cons_append, elementsAt, ih, Segment.join_found, Text.bytes_append, Nat.add_assoc]
      rfl

theorem elementsAt_plain (base : Nat) (t : Text) : elementsAt base (t.map .plain) = [] := by
  induction t generalizing base with
  | nil => rfl
  | cons c t ih => exact ih (base + c.utf8Size)

/-! ### Words and where they begin -/

theorem elementWord_lone : '<' ∉ "script".toList := by decide

theorem endWord_eq : endWord = '<' :: "/script".toList := rfl

theorem endWord_lone : '<' ∉ "/script".toList := by decide

theorem eq_of_toLower_eq {c d : Char} (low : d.val.toNat < 97) (same : c.toLower = d) : c = d := by
  -- Only a letter is changed, and it becomes a small one.
  unfold Char.toLower at same
  split at same
  · next upper =>
    have first := UInt32.le_iff_toNat_le.mp upper.1
    have last := UInt32.le_iff_toNat_le.mp upper.2
    have value := congrArg (fun e : Char => e.val.toNat) same
    simp only [UInt32.toNat_add] at value
    have bottom : 'A'.val.toNat = 65 := rfl
    have top : 'Z'.val.toNat = 90 := rfl
    have gap : ('a'.val - 'A'.val).toNat = 32 := rfl
    omega
  · exact same

theorem toLower_eq_bracket {c : Char} (same : c.toLower = '<') : c = '<' := eq_of_toLower_eq (by decide) same

theorem mem_fold {c : Char} {t : Text} (member : c ∈ t) : c.toLower ∈ Text.fold t :=
  List.mem_map_of_mem member

theorem bracket_word {word tail : Text} (folded : Text.fold word = '<' :: tail) (lone : '<' ∉ tail) :
    ∃ letters, word = '<' :: letters ∧ Text.fold letters = tail ∧ '<' ∉ letters := by
  cases word with
  | nil => cases folded
  | cons c letters =>
    rcases List.cons.inj folded with ⟨bracket, same⟩
    refine ⟨letters, by rw [toLower_eq_bracket bracket], same, ?_⟩
    intro member
    apply lone
    rw [← same]
    exact mem_fold member

theorem word_eq {word : Text} (folded : Text.fold word = elementWord) :
    ∃ letters, word = '<' :: letters ∧ Text.fold letters = "script".toList ∧ '<' ∉ letters :=
  bracket_word folded elementWord_lone

theorem not_prefix_of_ne {c : Char} (other : c ≠ '<') (t : Text) :
    ¬ elementWord <+: Text.fold (c :: t) := by
  intro begins
  exact other (toLower_eq_bracket (List.cons_prefix_cons.mp begins).1.symm)

theorem prefix_of_begins {t : Text} (begins : Begins t) : elementWord <+: Text.fold t := by
  rcases begins with ⟨word, behind, rfl, folded, _⟩
  exact Text.prefix_fold_append folded behind

theorem nameEnds_behind (inner rest : Text) : nameEnds (inner ++ '>' :: rest) = nameEnds (inner ++ ['>']) := by
  cases inner with
  | nil => rfl
  | cons c inner => rfl

/-! ### Start tags and end tags -/

theorem splitStartTag?_rest {quote : Option Char} {t inner rest : Text}
    (found : splitStartTag? quote t = some (inner, rest)) (other : Text) :
    splitStartTag? quote (inner ++ '>' :: other) = some (inner, other) := by
  induction t generalizing quote inner with
  | nil => cases quote <;> cases found
  | cons c t ih =>
    cases quote with
    | some quote =>
      rcases Option.map_eq_some_iff.mp found with ⟨⟨tail, after⟩, deeper, same⟩
      cases same
      rw [List.cons_append, splitStartTag?, ih deeper]
      rfl
    | none =>
      by_cases closes : c = '>'
      · rw [splitStartTag?, if_pos closes] at found
        cases found
        simp [splitStartTag?]
      · rw [splitStartTag?, if_neg closes] at found
        rcases Option.map_eq_some_iff.mp found with ⟨⟨tail, after⟩, deeper, same⟩
        cases same
        rw [List.cons_append, splitStartTag?, if_neg closes, ih deeper]
        rfl

theorem splitEndTag_ended {inner : Text} (absent : '>' ∉ inner) (rest : Text) :
    splitEndTag (inner ++ '>' :: rest) = (inner ++ ['>'], rest) := by
  rw [splitEndTag, Text.splitFirst?_append absent]

theorem splitEndTag_cut {inner : Text} (absent : '>' ∉ inner) : splitEndTag inner = (inner, []) := by
  rw [splitEndTag, Text.splitFirst?_eq_none absent]

theorem endTag_bare {name : Text} (folded : Text.fold name = endWord) (rest : Text) :
    EndTag (name ++ ['>']) rest :=
  @EndTag.ended name [] rest folded List.not_mem_nil

theorem endTag_of_split {name : Text} (folded : Text.fold name = endWord) (after : Text) :
    EndTag (name ++ (splitEndTag after).1) (splitEndTag after).2 := by
  cases found : Text.splitFirst? '>' after with
  | none =>
    have absent : '>' ∉ after := by
      intro member
      rcases List.eq_append_cons_of_mem member with ⟨front, back, rfl, first⟩
      rw [Text.splitFirst?_append first] at found
      cases found
    rw [splitEndTag_cut absent]
    exact .cut folded absent
  | some parts =>
    rcases parts with ⟨inner, rest⟩
    rcases Text.splitFirst?_eq_some found with ⟨rfl, absent⟩
    rw [splitEndTag_ended absent]
    exact .ended folded absent

/-! ### The search step by step -/

theorem elementsFrom_eq (offset : Nat) (t : Text) :
    elementsFrom offset t =
      match Text.splitFolded? elementWord t with
      | none => .ok []
      | some (gap, word, behind) =>
        if nameEnds behind then
          match splitStartTag? none behind with
          | none => .error (.unterminatedStartTag (offset + gap.bytes))
          | some (inner, inside) =>
            match Text.splitFolded? endWord inside with
            | none => .error (.missingEndTag (offset + gap.bytes))
            | some (content, name, after) =>
              let element : Element :=
                ⟨offset + gap.bytes, word, inner, content, name ++ (splitEndTag after).1⟩
              (elementsFrom element.stop (splitEndTag after).2).map (element :: ·)
        else elementsFrom (offset + gap.bytes + word.bytes) behind := by
  rw [elementsFrom]
  split
  · next absent => rw [absent]
  · next found =>
    rw [found]
    split
    · next named =>
      simp only [named, if_true]
      split
      · next opened => rw [opened]
      · next opened =>
        simp only [opened]
        split
        · next closed => rw [closed]
        · next closed => rw [closed]
    · next longer => simp only [longer, Bool.false_eq_true, if_false]

theorem elementsFrom_cons (offset : Nat) (c : Char) (t : Text)
    (elsewhere : ¬ elementWord <+: Text.fold (c :: t)) :
    elementsFrom offset (c :: t) = elementsFrom (offset + c.utf8Size) t := by
  rw [elementsFrom_eq offset (c :: t), elementsFrom_eq _ t, Text.splitFolded?_cons elsewhere]
  cases Text.splitFolded? elementWord t with
  | none => rfl
  | some parts =>
    rcases parts with ⟨gap, word, behind⟩
    simp only [Option.map_some, Text.bytes, Nat.add_assoc]

theorem elementsFrom_letters (offset : Nat) (letters t : Text) (plain : '<' ∉ letters) :
    elementsFrom offset (letters ++ t) = elementsFrom (offset + letters.bytes) t := by
  induction letters generalizing offset with
  | nil => rfl
  | cons c letters ih =>
    rcases List.ne_and_not_mem_of_not_mem_cons plain with ⟨other, rest⟩
    rw [List.cons_append, elementsFrom_cons offset c _ (not_prefix_of_ne (Ne.symm other) _), ih _ rest,
      Text.bytes, Nat.add_assoc]

theorem elementsFrom_plain (offset : Nat) (c : Char) (t : Text) (plain : ¬ Begins (c :: t)) :
    elementsFrom offset (c :: t) = elementsFrom (offset + c.utf8Size) t := by
  by_cases here : elementWord <+: Text.fold (c :: t)
  · rcases Text.prefix_fold here with ⟨word, behind, cut, folded⟩
    have longer : nameEnds behind = false := by
      apply Bool.eq_false_iff.mpr
      intro named
      exact plain ⟨word, behind, cut, folded, named⟩
    rcases word_eq folded with ⟨letters, rfl, _, bare⟩
    rcases List.cons.inj cut with ⟨rfl, rest⟩
    have found := Text.splitFolded?_head folded behind
    rw [← cut] at found
    calc
      elementsFrom offset ('<' :: t) = elementsFrom (offset + Text.bytes ('<' :: letters)) behind := by
        rw [elementsFrom_eq, found]
        simp [longer, Text.bytes]
      _ = elementsFrom (offset + '<'.utf8Size + Text.bytes letters) behind := by
        rw [Text.bytes, Nat.add_assoc]
      _ = elementsFrom (offset + '<'.utf8Size) t := by
        rw [rest]
        exact (elementsFrom_letters _ letters behind bare).symm
  · exact elementsFrom_cons offset c t here

theorem elementsFrom_element (offset : Nat) (parts : Parts) (rest : Text) (stands : parts.Stands rest) :
    elementsFrom offset (parts.text ++ rest) =
      (elementsFrom (offset + parts.text.bytes) rest).map (parts.placed offset :: ·) := by
  rcases parts with ⟨word, inner, content, closing⟩
  rcases stands with ⟨folded, named, inside, absent, ended⟩
  have stop := stop_placed offset ⟨word, inner, content, closing⟩
  dsimp only at folded named inside absent ended
  have shape : Parts.text ⟨word, inner, content, closing⟩ ++ rest =
      word ++ (inner ++ '>' :: (content ++ (closing ++ rest))) := by
    simp [Parts.text]
  have behind : nameEnds (inner ++ '>' :: (content ++ (closing ++ rest))) = true := by
    rw [nameEnds_behind, named]
  rw [elementsFrom_eq, shape, Text.splitFolded?_head folded]
  simp only [behind, if_true, splitStartTag?_rest inside]
  rw [← stop]
  cases ended with
  | @ended name tail _ ends plain =>
    have close := Text.splitFolded?_append endWord_lone absent ends (tail ++ '>' :: rest)
    have split : content ++ (name ++ (tail ++ ['>']) ++ rest) = content ++ (name ++ (tail ++ '>' :: rest)) := by
      simp
    rw [split]
    simp only [endWord_eq, close, splitEndTag_ended plain]
    rfl
  | @cut name tail ends plain =>
    have close := Text.splitFolded?_append endWord_lone absent ends tail
    rw [List.append_nil]
    simp only [endWord_eq, close, splitEndTag_cut plain]
    rfl

/-! ### The search and the walk -/

theorem elementsFrom_of_walk {t : Text} {segments : List (Segment Parts)} (walk : Walk t segments)
    (offset : Nat) : elementsFrom offset t = .ok (elementsAt offset segments) := by
  induction walk generalizing offset with
  | done => rw [elementsFrom_eq]; rfl
  | plain plain _ ih => rw [elementsFrom_plain offset _ _ plain, ih, elementsAt]
  | element stands _ ih => rw [elementsFrom_element offset _ _ stands, ih]; rfl

theorem walk_gap {gap t : Text} {segments : List (Segment Parts)}
    (absent : ¬ elementWord <:+: Text.fold gap) (bracket : ∀ c ∈ t.head?, c = '<')
    (walk : Walk t segments) : Walk (gap ++ t) (gap.map .plain ++ segments) := by
  induction gap with
  | nil => exact walk
  | cons c gap ih =>
    rw [List.cons_append, List.map_cons, List.cons_append]
    refine .plain ?_ (ih fun inside => absent (List.infix_cons inside))
    intro begins
    have here := prefix_of_begins begins
    cases t with
    | nil =>
      rw [List.append_nil] at here
      exact absent here.isInfix
    | cons d t =>
      obtain rfl := bracket d rfl
      rw [← List.cons_append, Text.fold_append] at here
      exact absent (Text.prefix_of_lone elementWord_lone (by simp) here).isInfix

theorem walk_plain {gap : Text} (absent : ¬ elementWord <:+: Text.fold gap) : Walk gap (gap.map .plain) := by
  have walk := walk_gap absent (fun _ head => by cases head) .done
  rw [List.append_nil, List.append_nil] at walk
  exact walk

theorem head_of_word {word behind : Text} (folded : Text.fold word = elementWord) :
    ∀ c ∈ (word ++ behind).head?, c = '<' := by
  rcases word_eq folded with ⟨letters, rfl, _⟩
  intro c head
  exact (Option.some.inj head).symm

theorem walk_letters {letters t : Text} {segments : List (Segment Parts)} (bare : '<' ∉ letters)
    (walk : Walk t segments) : Walk (letters ++ t) (letters.map .plain ++ segments) := by
  induction letters with
  | nil => exact walk
  | cons c letters ih =>
    rcases List.ne_and_not_mem_of_not_mem_cons bare with ⟨other, rest⟩
    rw [List.cons_append, List.map_cons, List.cons_append]
    refine .plain ?_ (ih rest)
    intro begins
    exact not_prefix_of_ne (Ne.symm other) _ (prefix_of_begins begins)

theorem walk_longer {word behind : Text} {segments : List (Segment Parts)}
    (folded : Text.fold word = elementWord) (longer : nameEnds behind = false)
    (walk : Walk behind segments) : Walk (word ++ behind) (word.map .plain ++ segments) := by
  rcases word_eq folded with ⟨letters, rfl, _, bare⟩
  rw [List.cons_append, List.map_cons, List.cons_append]
  refine .plain ?_ (walk_letters bare walk)
  intro begins
  rcases begins with ⟨other, after, same, folded', named⟩
  have level : ('<' :: letters).length = other.length := by
    rw [← Text.length_fold, folded, ← folded', Text.length_fold]
  have cut : '<' :: letters ++ behind = other ++ after := same
  have tails : behind = after := (List.append_inj cut level).2
  rw [tails, named] at longer
  cases longer

theorem stands_of_search {word behind inner inside content name after : Text}
    (folded : Text.fold word = elementWord) (named : nameEnds behind = true)
    (opened : splitStartTag? none behind = some (inner, inside))
    (closed : Text.splitFolded? endWord inside = some (content, name, after)) :
    Parts.Stands ⟨word, inner, content, name ++ (splitEndTag after).1⟩ (splitEndTag after).2 ∧
      word ++ behind =
        Parts.text ⟨word, inner, content, name ++ (splitEndTag after).1⟩ ++ (splitEndTag after).2 := by
  have absent := Text.splitFolded?_gap closed (by decide)
  rcases Text.splitFolded?_eq_some closed with ⟨rfl, ends⟩
  obtain rfl := splitStartTag?_eq_some opened
  refine ⟨⟨folded, ?_, splitStartTag?_rest opened [], absent, endTag_of_split ends after⟩, ?_⟩
  · rw [nameEnds_behind] at named
    exact named
  · simp [Parts.text, splitEndTag_eq]

theorem walk_exists (offset : Nat) (t : Text) (found : List Element)
    (searched : elementsFrom offset t = .ok found) : ∃ segments, Walk t segments := by
  induction size : t.length using Nat.strongRecOn generalizing t offset found with
  | ind n ih =>
    rw [elementsFrom_eq] at searched
    cases first : Text.splitFolded? elementWord t with
    | none =>
      exact ⟨_, walk_plain (Text.splitFolded?_eq_none_iff.mp first)⟩
    | some parts =>
      rcases parts with ⟨gap, word, behind⟩
      have absent := Text.splitFolded?_gap first (by decide)
      have shorter := length_lt_of_splitFolded? (by decide) first
      rcases Text.splitFolded?_eq_some first with ⟨split, folded⟩
      rw [List.append_assoc] at split
      simp only [first] at searched
      cases named : nameEnds behind with
      | false =>
        simp only [named, Bool.false_eq_true, if_false] at searched
        rcases ih behind.length (size ▸ shorter) _ behind found searched rfl with ⟨segments, walk⟩
        rw [split]
        exact ⟨_, walk_gap absent (head_of_word folded) (walk_longer folded named walk)⟩
      | true =>
        simp only [named, if_true] at searched
        cases opened : splitStartTag? none behind with
        | none =>
          rw [opened] at searched
          cases searched
        | some start =>
          rcases start with ⟨inner, inside⟩
          simp only [opened] at searched
          cases closed : Text.splitFolded? endWord inside with
          | none =>
            rw [closed] at searched
            cases searched
          | some stop =>
            rcases stop with ⟨content, name, after⟩
            simp only [closed] at searched
            cases deeper : elementsFrom
                (Element.stop ⟨offset + gap.bytes, word, inner, content, name ++ (splitEndTag after).1⟩)
                (splitEndTag after).2 with
            | error error =>
              rw [deeper] at searched
              cases searched
            | ok more =>
              rcases stands_of_search folded named opened closed with ⟨stands, cut⟩
              have less : (splitEndTag after).2.length < n := by
                have whole := congrArg List.length cut
                simp only [List.length_append, Parts.text, List.length_cons] at whole
                rw [← size, split]
                simp only [List.length_append]
                omega
              rcases ih _ less _ _ more deeper rfl with ⟨segments, walk⟩
              have element := Walk.element stands walk
              rw [← cut] at element
              rw [split]
              exact ⟨_, walk_gap absent (head_of_word folded) element⟩

theorem elements_eq_ok_iff (page : Text) (found : List Element) :
    elements page = .ok found ↔ ∃ segments, Walk page segments ∧ found = elementsAt 0 segments := by
  constructor
  · intro searched
    rcases walk_exists 0 page found searched with ⟨segments, walk⟩
    rw [elements, elementsFrom_of_walk walk 0] at searched
    exact ⟨segments, walk, (Except.ok.inj searched).symm⟩
  · intro walked
    rcases walked with ⟨segments, walk, rfl⟩
    exact elementsFrom_of_walk walk 0

end TagCalls.Page
