import TagCalls.Page.Emitter
import TagCalls.Proofs.Page.StartTag

/-!
Edits of a walked page. Marks in start tags and scripts between segments leave every other segment as
it was: the walk of the edited page is the walk of the page with those segments changed or added.
-/
namespace TagCalls.Page

/-! ### What decides where an element begins -/

/-- A text up to its first `<`. Whether an element begins before it depends on nothing behind. -/
def toBracket : Text → Text
  | [] => []
  | c :: t => if c = '<' then ['<'] else c :: toBracket t

theorem toBracket_letters {letters : Text} (bare : '<' ∉ letters) (t : Text) :
    toBracket (letters ++ t) = letters ++ toBracket t := by
  induction letters with
  | nil => rfl
  | cons c letters ih =>
    rcases List.ne_and_not_mem_of_not_mem_cons bare with ⟨other, rest⟩
    rw [List.cons_append, toBracket, if_neg (Ne.symm other), ih rest, List.cons_append]

theorem letters_of_toBracket {letters t behind : Text} (bare : '<' ∉ letters)
    (same : toBracket t = letters ++ behind) : ∃ rest, t = letters ++ rest ∧ toBracket rest = behind := by
  induction letters generalizing t with
  | nil => exact ⟨t, rfl, same⟩
  | cons c letters ih =>
    rcases List.ne_and_not_mem_of_not_mem_cons bare with ⟨other, later⟩
    cases t with
    | nil => cases same
    | cons d t =>
      rw [toBracket] at same
      split at same
      · rcases List.cons.inj same with ⟨bracket, _⟩
        exact absurd bracket other
      · rcases List.cons.inj same with ⟨rfl, tails⟩
        rcases ih later tails with ⟨rest, rfl, kept⟩
        exact ⟨rest, rfl, kept⟩

theorem nameEnds_toBracket (t : Text) : nameEnds (toBracket t) = nameEnds t := by
  cases t with
  | nil => rfl
  | cons c t =>
    rw [toBracket]
    split
    · next bracket => rw [bracket]; rfl
    · rfl

theorem toBracket_eq_nil {t : Text} (empty : toBracket t = []) : t = [] := by
  cases t with
  | nil => rfl
  | cons c t =>
    rw [toBracket] at empty
    split at empty <;> cases empty

theorem toBracket_bracket (front first second : Text) :
    toBracket (front ++ '<' :: first) = toBracket (front ++ '<' :: second) := by
  induction front with
  | nil => rfl
  | cons c front ih => rw [List.cons_append, List.cons_append, toBracket, toBracket, ih]

theorem begins_of_toBracket {c : Char} {t other : Text} (begins : Begins (c :: t))
    (same : toBracket t = toBracket other) : Begins (c :: other) := by
  rcases begins with ⟨word, behind, split, folded, named⟩
  rcases word_eq folded with ⟨letters, rfl, _, bare⟩
  rcases List.cons.inj split with ⟨rfl, tail⟩
  have front : toBracket other = letters ++ toBracket behind := by
    rw [← same, ← toBracket_letters bare]
    exact congrArg toBracket tail
  rcases letters_of_toBracket bare front with ⟨rest, rfl, kept⟩
  refine ⟨'<' :: letters, rest, rfl, folded, ?_⟩
  rw [← nameEnds_toBracket, kept, nameEnds_toBracket, named]

theorem begins_of_append {c d : Char} {t more : Text} (foreign : d.toLower ∉ "script".toList)
    (begins : Begins (c :: (t ++ d :: more))) : Begins (c :: t) := by
  rcases begins with ⟨word, behind, split, folded, named⟩
  rcases word_eq folded with ⟨letters, rfl, same, _⟩
  rcases List.cons.inj split with ⟨rfl, tail⟩
  rcases List.append_eq_append_iff.mp (show t ++ d :: more = letters ++ behind from tail) with
    ⟨back, rfl, cut⟩ | ⟨back, rfl, rfl⟩
  · cases back with
    | nil => exact ⟨'<' :: (t ++ []), [], by simp, folded, rfl⟩
    | cons e back =>
      rcases List.cons.inj cut with ⟨rfl, _⟩
      have inside : d.toLower ∈ Text.fold (t ++ d :: back) := mem_fold (by simp)
      rw [same] at inside
      exact absurd inside foreign
  · refine ⟨'<' :: letters, back, rfl, folded, ?_⟩
    cases back with
    | nil => rfl
    | cons e back => exact named

/-! ### What may follow an element -/

theorem endTag_rest {closing rest other : Text} (tag : EndTag closing rest) (same : rest = [] → other = []) :
    EndTag closing other := by
  cases tag with
  | ended folded absent => exact .ended folded absent
  | cut folded absent =>
    rw [same rfl]
    exact .cut folded absent

theorem endTag_of_ended {closing rest : Text} (tag : EndTag closing rest) (ended : '>' ∈ closing)
    (other : Text) : EndTag closing other := by
  cases tag with
  | ended folded absent => exact .ended folded absent
  | @cut name inner folded absent =>
    rcases List.mem_append.mp ended with inName | inInner
    · have inside : '>' ∈ Text.fold name := mem_fold inName
      rw [folded] at inside
      exact absurd inside (by decide)
    · exact absurd inInner absent

theorem Parts.Stands.follow {parts : Parts} {rest other : Text} (stands : parts.Stands rest)
    (closing : EndTag parts.closing other) : parts.Stands other :=
  { stands with closing }

theorem begins_of_stands {parts : Parts} {rest : Text} (stands : parts.Stands rest) :
    Begins (parts.text ++ rest) := by
  refine ⟨parts.word, parts.inner ++ '>' :: (parts.content ++ (parts.closing ++ rest)), ?_, stands.word, ?_⟩
  · simp [Parts.text]
  · rw [nameEnds_behind, stands.named]

theorem walk_behind {t : Text} {first second : List (Segment Parts)} (walk : Walk t (first ++ second)) :
    Walk (Segment.join Parts.text second) second := by
  induction first generalizing t with
  | nil =>
    rw [List.nil_append] at walk
    rw [join_of_walk walk]
    exact walk
  | cons segment first ih =>
    cases walk with
    | plain _ behind => exact ih behind
    | element _ behind => exact ih behind

theorem walk_uncons {c : Char} {t : Text} {segments : List (Segment Parts)} (walk : Walk (c :: t) segments)
    (plain : ¬ Begins (c :: t)) : ∃ rest, segments = .plain c :: rest ∧ Walk t rest := by
  generalize whole : c :: t = text at walk
  cases walk with
  | done => cases whole
  | plain _ behind =>
    cases whole
    exact ⟨_, rfl, behind⟩
  | element stands _ =>
    rw [whole] at plain
    exact absurd (begins_of_stands stands) plain

/-- Behind the first segments of a walk other ones may stand, if they do not complete the beginning of
an element before them and no unfinished end tag takes them in. -/
theorem walk_replace {t : Text} {first second other : List (Segment Parts)} (walk : Walk t (first ++ second))
    (behind : Walk (Segment.join Parts.text other) other)
    (plain : ∀ c front, Begins (c :: (front ++ Segment.join Parts.text other)) →
      Begins (c :: (front ++ Segment.join Parts.text second)))
    (ended : Segment.join Parts.text second = [] → ∀ parts, .found parts ∈ first → '>' ∈ parts.closing) :
    Walk (Segment.join Parts.text (first ++ other)) (first ++ other) := by
  induction first generalizing t with
  | nil => exact behind
  | cons segment first ih =>
    have endedLater : Segment.join Parts.text second = [] →
        ∀ parts, .found parts ∈ first → '>' ∈ parts.closing :=
      fun empty parts member => ended empty parts (List.mem_cons_of_mem _ member)
    rw [List.cons_append] at walk ⊢
    cases walk with
    | @plain c t _ quiet rest =>
      rw [Segment.join_plain]
      refine .plain ?_ (ih rest endedLater)
      intro begins
      rw [Segment.join_append] at begins
      apply quiet
      rw [← join_of_walk rest, Segment.join_append]
      exact plain c _ begins
    | @element parts t _ stands rest =>
      rw [Segment.join_found]
      refine .element (stands.follow ?_) (ih rest endedLater)
      -- An end tag without `>` was read only because nothing followed it.
      by_cases empty : Segment.join Parts.text second = []
      · exact endTag_of_ended stands.closing (ended empty parts List.mem_cons_self) _
      · apply endTag_rest stands.closing
        intro nothing
        rw [← join_of_walk rest, Segment.join_append] at nothing
        exact absurd (List.append_eq_nil_iff.mp nothing).2 empty

/-! ### Marks -/

def mark : Written :=
  ⟨0, transformedName, some (.double "true".toList (by decide)), by decide, written_chars (by decide)⟩

theorem render_mark : mark.render = Emitter.marker := by decide

def Parts.marked (parts : Parts) : Parts := { parts with inner := Emitter.marker ++ parts.inner }

theorem text_marked (parts : Parts) : parts.marked.text =
    parts.word ++ (Emitter.marker ++ (parts.inner ++ '>' :: (parts.content ++ parts.closing))) := by
  simp [Parts.marked, Parts.text]

theorem stands_marked {parts : Parts} {rest : Text} (stands : parts.Stands rest) : parts.marked.Stands rest where
  word := stands.word
  named := rfl
  inner := by
    have found := splitStartTag?_written mark stands.inner
    rw [render_mark] at found
    rw [Parts.marked, List.append_assoc]
    exact found
  content := stands.content
  closing := stands.closing

theorem not_wanted_marked (type : Text) (parts : Parts) (start : Nat) :
    isWanted type (parts.marked.placed start) = false := by
  have items : startAttributes (Emitter.marker ++ parts.inner) = mark.item :: startAttributes parts.inner := by
    rw [← render_mark]
    exact startAttributes_valued mark _ rfl parts.inner
  have named : Text.sameFolded mark.item.1 transformedName = true := by decide
  rw [isWanted, Parts.placed, Parts.marked]
  simp only [items, List.any_cons, named, Bool.true_or, Bool.not_true, Bool.false_and]

/-- Segments that begin at `base`, with a mark in each element whose offset is `held`. -/
def markAt (held : Nat → Bool) : Nat → List (Segment Parts) → List (Segment Parts)
  | _, [] => []
  | base, .plain c :: segments => .plain c :: markAt held (base + c.utf8Size) segments
  | base, .found parts :: segments =>
    .found (if held base then parts.marked else parts) :: markAt held (base + parts.text.bytes) segments

section
variable (held : Nat → Bool)

theorem markAt_append (base : Nat) (first second : List (Segment Parts)) :
    markAt held base (first ++ second) =
      markAt held base first ++ markAt held (base + (Segment.join Parts.text first).bytes) second := by
  induction first generalizing base with
  | nil => rfl
  | cons segment first ih =>
    cases segment with
    | plain c =>
      rw [List.cons_append, markAt, ih, markAt, Segment.join_plain, Text.bytes, Nat.add_assoc, List.cons_append]
    | found parts =>
      rw [List.cons_append, markAt, ih, markAt, Segment.join_found, Text.bytes_append, Nat.add_assoc, List.cons_append]

theorem markAt_plain (base : Nat) (t : Text) : markAt held base (t.map .plain) = t.map .plain := by
  induction t generalizing base with
  | nil => rfl
  | cons c t ih => rw [List.map_cons, markAt, ih]

theorem elementsAt_markAt (base origin : Nat) (segments : List (Segment Parts)) :
    (elementsAt origin (markAt held base segments)).map Element.parts =
      (elementsAt base segments).map fun element =>
        if held element.start then element.parts.marked else element.parts := by
  induction segments generalizing base origin with
  | nil => rfl
  | cons segment segments ih =>
    cases segment with
    | plain c => exact ih _ _
    | found parts =>
      rw [markAt, elementsAt, elementsAt, List.map_cons, List.map_cons, ih]
      rfl

theorem ended_markAt (base : Nat) (segments : List (Segment Parts))
    (ended : ∀ element ∈ elementsAt base segments, '>' ∈ element.closing) :
    ∀ parts, .found parts ∈ markAt held base segments → '>' ∈ parts.closing := by
  induction segments generalizing base with
  | nil =>
    intro parts member
    cases member
  | cons segment segments ih =>
    intro parts member
    cases segment with
    | plain c =>
      rcases List.mem_cons.mp member with same | later
      · cases same
      · exact ih _ ended parts later
    | found first =>
      rcases List.mem_cons.mp member with same | later
      · have closed := ended (first.placed base) List.mem_cons_self
        cases same
        split
        · exact closed
        · exact closed
      · exact ih _ (fun element inside => ended element (List.mem_cons_of_mem _ inside)) parts later

theorem toBracket_markAt {t : Text} {segments : List (Segment Parts)} (walk : Walk t segments) (base : Nat) :
    toBracket (Segment.join Parts.text (markAt held base segments)) = toBracket t := by
  induction walk generalizing base with
  | done => rfl
  | plain _ _ ih => rw [markAt, Segment.join_plain, toBracket, toBracket, ih]
  | @element parts rest segments stands _ _ =>
    rcases word_eq stands.word with ⟨letters, word, _⟩
    rw [markAt, Segment.join_found]
    split
    · rw [text_marked, Parts.text, word]
      rfl
    · rw [Parts.text, word]
      rfl

theorem walk_markAt {t : Text} {segments : List (Segment Parts)} (walk : Walk t segments) (base : Nat) :
    Walk (Segment.join Parts.text (markAt held base segments)) (markAt held base segments) := by
  induction walk generalizing base with
  | done => exact .done
  | plain quiet behind ih =>
    refine .plain ?_ (ih _)
    intro begins
    exact quiet (begins_of_toBracket begins (toBracket_markAt held behind _))
  | @element parts rest segments stands behind ih =>
    have closing : EndTag parts.closing (Segment.join Parts.text (markAt held (base + parts.text.bytes) segments)) := by
      apply endTag_rest stands.closing
      intro nothing
      apply toBracket_eq_nil
      rw [toBracket_markAt held behind, nothing]
      rfl
    refine .element ?_ (ih _)
    -- A mark stands in the start tag, so what may follow the element is the same with and without it.
    split
    · exact stands_marked (stands.follow closing)
    · exact stands.follow closing

theorem mark?_markAt {t : Text} {segments : List (Segment Parts)} (walk : Walk t segments)
    (origin base : Nat) (front : Text) (place : origin + front.bytes = base) :
    Emitter.mark? origin ((((elementsAt base segments).map (·.start)).filter held).map (· + elementWord.length))
      (front ++ t) = some (front ++ Segment.join Parts.text (markAt held base segments)) := by
  -- `front` is what is left of the page behind the last mark.
  induction walk generalizing origin base front with
  | done => rfl
  | @plain c t segments _ _ ih =>
    have step := ih origin (base + c.utf8Size) (front ++ [c]) (by
      rw [Text.bytes_append, ← place, Text.bytes, Text.bytes]
      omega)
    rw [List.append_assoc, List.append_assoc] at step
    exact step
  | @element parts rest segments stands _ ih =>
    rw [elementsAt, markAt, List.map_cons, List.filter_cons, Segment.join_found]
    have start : (parts.placed base).start = base := rfl
    rw [start]
    cases covered : held base with
    | false =>
      have step := ih origin (base + parts.text.bytes) (front ++ parts.text) (by
        rw [Text.bytes_append, ← place]
        omega)
      rw [List.append_assoc, List.append_assoc] at step
      exact step
    | true =>
      -- The cut is behind the word; the rest of the element is in front of the next mark.
      have size : Text.bytes parts.word = elementWord.length := by
        rw [← Text.bytes_fold, stands.word]
        rfl
      have inner : parts.text.bytes = elementWord.length +
          Text.bytes (parts.inner ++ '>' :: (parts.content ++ parts.closing)) := by
        rw [← size, ← Text.bytes_append]
        rfl
      have step := ih (base + elementWord.length) (base + parts.text.bytes)
        (parts.inner ++ '>' :: (parts.content ++ parts.closing)) (by rw [inner, Nat.add_assoc])
      have cut := Text.splitAt?_append (front ++ parts.word)
        (parts.inner ++ '>' :: (parts.content ++ parts.closing) ++ rest)
      have whole : front ++ (parts.text ++ rest) =
          front ++ parts.word ++ (parts.inner ++ '>' :: (parts.content ++ parts.closing) ++ rest) := by
        simp [Parts.text]
      have offset : base + elementWord.length - origin = Text.bytes (front ++ parts.word) := by
        rw [Text.bytes_append, size]
        omega
      simp only [if_true, List.map_cons, Emitter.mark?, whole, offset, cut, Option.bind_eq_bind,
        Option.bind_some, step, text_marked]
      simp

end

/-! ### Scripts -/

def generated (code : Text) : Parts := ⟨elementWord, [], '\n' :: (code ++ ['\n']), "</script>".toList⟩

def scriptSegments (codes : List Text) : List (Segment Parts) :=
  codes.flatMap fun code => [.found (generated code), .plain '\n']

theorem stands_generated {code : Text} (free : ¬ endWord <:+: Text.fold code) (rest : Text) :
    (generated code).Stands rest where
  word := rfl
  named := rfl
  inner := rfl
  content := by
    intro inside
    have split : Text.fold (generated code).content = [] ++ '\n' :: (Text.fold code ++ '\n' :: []) := by
      simp [generated]
    rw [split] at inside
    rcases Text.infix_of_absent (by decide) inside with empty | behind
    · exact absurd (List.infix_nil.mp empty) (by decide)
    · rcases Text.infix_of_absent (by decide) behind with here | empty
      · exact free here
      · exact absurd (List.infix_nil.mp empty) (by decide)
  closing := @endTag_bare endWord rfl rest

theorem not_wanted_generated (type code : Text) (start : Nat) :
    isWanted type ((generated code).placed start) = false := by
  have none : startAttributes [] = [] := by
    rw [startAttributes, startAttributesFrom_eq]
    rfl
  rw [isWanted, Parts.placed, generated]
  simp only [none]
  rfl

theorem script_eq (code : Text) : Emitter.script code = (generated code).text ++ ['\n'] := by
  have shape (before after : Text) (opening : before = elementWord ++ ['>', '\n'])
      (closing : after = '\n' :: ("</script>".toList ++ ['\n'])) :
      before ++ code ++ after = (generated code).text ++ ['\n'] := by
    subst opening closing
    simp only [generated, Parts.text, List.append_assoc, List.cons_append, List.nil_append]
  exact shape _ _ (by decide) (by decide)

theorem join_scriptSegments (codes : List Text) :
    Segment.join Parts.text (scriptSegments codes) = codes.flatMap Emitter.script := by
  induction codes with
  | nil => rfl
  | cons code codes ih =>
    have split : scriptSegments (code :: codes) = .found (generated code) :: .plain '\n' :: scriptSegments codes := rfl
    rw [split, Segment.join_found, Segment.join_plain, ih, List.flatMap_cons, script_eq, List.append_assoc]
    rfl

theorem elementsAt_scriptSegments (base : Nat) (codes : List Text) :
    (elementsAt base (scriptSegments codes)).map Element.parts = codes.map generated := by
  induction codes generalizing base with
  | nil => rfl
  | cons code codes ih =>
    have split : scriptSegments (code :: codes) = .found (generated code) :: .plain '\n' :: scriptSegments codes := rfl
    rw [split, elementsAt, elementsAt, List.map_cons, ih]
    rfl

theorem walk_scripts {codes : List Text} (free : ∀ code ∈ codes, ¬ endWord <:+: Text.fold code)
    {segments : List (Segment Parts)} (walk : Walk (Segment.join Parts.text segments) segments) :
    Walk (Segment.join Parts.text (scriptSegments codes ++ segments)) (scriptSegments codes ++ segments) := by
  induction codes with
  | nil => exact walk
  | cons code codes ih =>
    have behind := ih fun other member => free other (List.mem_cons_of_mem _ member)
    have here := stands_generated (free code List.mem_cons_self)
      ('\n' :: Segment.join Parts.text (scriptSegments codes ++ segments))
    have bare : '<' ∉ ['\n'] := by decide
    exact .element here (walk_letters bare behind)

end TagCalls.Page
