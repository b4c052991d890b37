import TagCalls.Proofs.Page.Edit
import TagCalls.Proofs.Text.Offset

/-!
Scripts in a marked page. Their place, before the last `</body>` or at the end, is found without regard
to elements. Main statement: `elements_insertScripts`, where that place is in no element, the scripts
become elements of their own and the marked elements stay in their order.
-/
namespace TagCalls.Page

def bodyWord : Text := "</body>".toList

def LastBody (page before after : Text) : Prop :=
  page = before ++ after ∧ bodyWord <+: Text.fold after ∧ ¬ bodyWord <:+: Text.fold after.tail

/-- The place of the scripts is in no element, nor in an end tag that never ends. -/
structure Apart (page : Text) (found : List Element) : Prop where
  body : ∀ before after, LastBody page before after → ∀ element ∈ found,
    ¬ (element.start ≤ before.bytes ∧ before.bytes + bodyWord.bytes ≤ element.stop)
  ended : (∀ before after, ¬ LastBody page before after) → ∀ element ∈ found, '>' ∈ element.closing

theorem lastBody_iff (page before after : Text) :
    Text.splitLastFolded? bodyWord page = some (before, after) ↔ LastBody page before after :=
  Text.splitLastFolded?_eq_some_iff (by decide)

theorem insertScripts_body {page before after : Text} (last : LastBody page before after) (scripts : Text) :
    Emitter.insertScripts scripts page = before ++ scripts ++ after := by
  have found : Text.splitLastFolded? "</body>".toList page = some (before, after) :=
    (lastBody_iff page before after).mpr last
  simp only [Emitter.insertScripts, found]

theorem insertScripts_end {page : Text} (absent : ¬ bodyWord <:+: Text.fold page) (scripts : Text) :
    Emitter.insertScripts scripts page = page ++ Emitter.missingBreak page ++ scripts := by
  have none : Text.splitLastFolded? "</body>".toList page = none := Text.splitLastFolded?_eq_none_iff.mpr absent
  simp only [Emitter.insertScripts, none]

/-! ### The last body tag of a marked page -/

theorem fold_marker : ∃ middle, Text.fold Emitter.marker = ' ' :: (middle ++ ['"']) ∧ '<' ∉ middle :=
  ⟨"data-transformed=\"true".toList, by decide, by decide⟩

theorem body_of_mark? {origin : Nat} {offsets : List Nat} {t out : Text}
    (marked : Emitter.mark? origin offsets t = some out) (inside : bodyWord <:+: Text.fold out) :
    bodyWord <:+: Text.fold t := by
  -- Marks complete no body tag: such a tag would hold a blank or a quote, or lie inside a mark.
  induction offsets generalizing origin t out with
  | nil =>
    cases marked
    exact inside
  | cons offset offsets ih =>
    simp only [Emitter.mark?, Option.bind_eq_bind, Option.bind_eq_some_iff, Prod.exists, Option.pure_def,
      Option.some.injEq] at marked
    rcases marked with ⟨before, after, split, rest, deeper, rfl⟩
    rw [(Text.splitAt?_eq_some split).1, Text.fold_append]
    rcases fold_marker with ⟨middle, marker, bare⟩
    have shape : Text.fold (before ++ Emitter.marker ++ rest) =
        Text.fold before ++ ' ' :: (middle ++ '"' :: Text.fold rest) := by
      simp only [Text.fold_append, marker, List.append_assoc, List.cons_append, List.nil_append]
    rw [shape] at inside
    rcases Text.infix_of_absent (by decide) inside with front | behind
    · exact front.trans (List.prefix_append _ _).isInfix
    · rcases Text.infix_of_absent (by decide) behind with within | later
      · exact absurd (within.subset (show '<' ∈ bodyWord by decide)) bare
      · exact (ih deeper later).trans (List.suffix_append _ _).isInfix

theorem body_of_marked (held : Nat → Bool) {t : Text} {segments : List (Segment Parts)} (walk : Walk t segments)
    (base : Nat) (front : Text) (place : front.bytes ≤ base)
    (inside : bodyWord <:+: Text.fold (front ++ Segment.join Parts.text (markAt held base segments))) :
    bodyWord <:+: Text.fold (front ++ t) :=
  body_of_mark? (mark?_markAt held walk (base - front.bytes) base front (Nat.sub_add_cancel place)) inside

theorem begins_body {body t : Text} (folded : Text.fold body = bodyWord) : ¬ Begins (body ++ t) := by
  intro begins
  have here := prefix_of_begins begins
  rw [Text.fold_append, folded] at here
  exact absurd (List.cons_prefix_cons.mp (List.cons_prefix_cons.mp here).2).1 (by decide)

theorem body_eq {body : Text} (folded : Text.fold body = bodyWord) :
    ∃ letters, body = '<' :: letters ∧ Text.fold letters = "/body>".toList ∧ '<' ∉ letters :=
  bracket_word folded (by decide)

theorem unwalk_letters {letters t : Text} {segments : List (Segment Parts)} (bare : '<' ∉ letters)
    (walk : Walk (letters ++ t) segments) : ∃ rest, segments = letters.map .plain ++ rest ∧ Walk t rest := by
  induction letters generalizing segments with
  | nil => exact ⟨segments, rfl, walk⟩
  | cons c letters ih =>
    rcases List.ne_and_not_mem_of_not_mem_cons bare with ⟨other, later⟩
    have quiet : ¬ Begins (c :: (letters ++ t)) :=
      fun begins => not_prefix_of_ne (Ne.symm other) _ (prefix_of_begins begins)
    rcases walk_uncons walk quiet with ⟨middle, rfl, behind⟩
    rcases ih later behind with ⟨rest, rfl, last⟩
    exact ⟨rest, rfl, last⟩

theorem unwalk_body {body t : Text} {segments : List (Segment Parts)} (folded : Text.fold body = bodyWord)
    (walk : Walk (body ++ t) segments) : ∃ rest, segments = body.map .plain ++ rest ∧ Walk t rest := by
  have quiet := begins_body (t := t) folded
  rcases body_eq folded with ⟨letters, rfl, _, bare⟩
  rcases walk_uncons walk quiet with ⟨middle, rfl, behind⟩
  rcases unwalk_letters bare behind with ⟨rest, rfl, last⟩
  exact ⟨rest, rfl, last⟩

theorem lastBody_marked (held : Nat → Bool) {page before after : Text} {first second : List (Segment Parts)}
    (walk : Walk page (first ++ second)) (last : LastBody page before after)
    (behind : Segment.join Parts.text second = after) (base : Nat) :
    LastBody (Segment.join Parts.text (markAt held 0 first) ++ Segment.join Parts.text (markAt held base second))
      (Segment.join Parts.text (markAt held 0 first)) (Segment.join Parts.text (markAt held base second)) := by
  rcases last with ⟨_, begins, once⟩
  rcases Text.prefix_fold begins with ⟨body, t, rfl, folded⟩
  have walked := walk_behind walk
  rw [behind] at walked
  rcases unwalk_body folded walked with ⟨rest, rfl, rested⟩
  rcases body_eq folded with ⟨letters, rfl, _⟩
  have marked : Segment.join Parts.text (markAt held base (('<' :: letters).map .plain ++ rest)) =
      '<' :: letters ++ Segment.join Parts.text
        (markAt held (base + Text.bytes (Segment.join Parts.text (('<' :: letters).map .plain))) rest) := by
    rw [markAt_append, markAt_plain, Segment.join_append, Segment.join_map_plain]
  refine ⟨rfl, ?_, ?_⟩
  · rw [marked]
    exact Text.prefix_fold_append folded _
  · rw [marked]
    intro again
    apply once
    refine body_of_marked held rested _ letters ?_ again
    rw [Segment.join_map_plain, Text.bytes]
    omega

/-! ### The cut at the last body tag -/

theorem eq_of_prefix_bodyWord {front : Text} (begins : front <+: bodyWord) (ends : '>' ∈ front) :
    front = bodyWord := by
  have split : bodyWord = "</body".toList ++ ['>'] := by decide
  rw [split] at begins ⊢
  rcases List.prefix_concat_iff.mp begins with whole | short
  · exact whole
  · exact absurd (short.subset ends) (by decide)

theorem body_within {parts : Parts} {rest before more : Text} (stands : parts.Stands rest)
    (split : parts.text = before ++ more) (nonempty : more ≠ [])
    (begins : bodyWord <+: Text.fold (more ++ rest)) : bodyWord <+: Text.fold more := by
  rw [Text.fold_append] at begins
  have closing := stands.closing
  generalize shape : parts.closing = closed at closing
  cases closing with
  | cut =>
    rw [Text.fold_nil, List.append_nil] at begins
    exact begins
  | @ended name inner _ _ _ =>
    -- A tag that reaches out of the element would have the element's last `>` before its own end.
    rcases List.prefix_or_prefix_of_prefix begins (List.prefix_append _ _) with within | short
    · exact within
    · have tail : parts.text = parts.word ++ (parts.inner ++ '>' :: (parts.content ++ (name ++ inner))) ++ ['>'] := by
        simp [Parts.text, shape]
      have ends : '>' ∈ Text.fold more := by
        rcases List.eq_nil_or_concat more with none | ⟨front, c, rfl⟩
        · exact absurd none nonempty
        · rw [tail, List.concat_eq_append, ← List.append_assoc before] at split
          obtain ⟨⟩ := (List.append_inj' split rfl).2
          rw [List.concat_eq_append]
          exact mem_fold (List.mem_append_right front List.mem_cons_self)
      exact eq_of_prefix_bodyWord short ends ▸ List.prefix_refl _

theorem cut_of_outside {page : Text} {segments : List (Segment Parts)} (walk : Walk page segments) (base : Nat)
    {before after : Text} (split : page = before ++ after) (begins : bodyWord <+: Text.fold after)
    (outside : ∀ element ∈ elementsAt base segments,
      ¬ (element.start ≤ base + before.bytes ∧ base + before.bytes + bodyWord.bytes ≤ element.stop)) :
    ∃ first second, segments = first ++ second ∧ Segment.join Parts.text first = before ∧
      Segment.join Parts.text second = after := by
  induction walk generalizing base before with
  | done =>
    rcases List.append_eq_nil_iff.mp split.symm with ⟨rfl, rfl⟩
    exact absurd (List.prefix_nil.mp begins) (by decide)
  | @plain c t segments quiet walk ih =>
    cases before with
    | nil =>
      refine ⟨[], .plain c :: segments, rfl, rfl, ?_⟩
      rw [Segment.join_plain, join_of_walk walk]
      exact split
    | cons d before =>
      rcases List.cons.inj split with ⟨rfl, tail⟩
      have moved : ∀ element ∈ elementsAt (base + c.utf8Size) segments,
          ¬ (element.start ≤ base + c.utf8Size + Text.bytes before ∧
            base + c.utf8Size + Text.bytes before + bodyWord.bytes ≤ element.stop) := by
        intro element member
        have away := outside element member
        rw [Text.bytes, ← Nat.add_assoc] at away
        exact away
      rcases ih _ tail moved with ⟨first, second, rfl, front, back⟩
      exact ⟨.plain c :: first, second, rfl, by rw [Segment.join_plain, front], back⟩
  | @element parts rest segments stands walk ih =>
    rcases List.append_eq_append_iff.mp split with ⟨more, rfl, behind⟩ | ⟨more, within, rfl⟩
    · have moved : ∀ element ∈ elementsAt (base + parts.text.bytes) segments,
          ¬ (element.start ≤ base + parts.text.bytes + Text.bytes more ∧
            base + parts.text.bytes + Text.bytes more + bodyWord.bytes ≤ element.stop) := by
        intro element member
        have away := outside element (List.mem_cons_of_mem _ member)
        rw [Text.bytes_append, ← Nat.add_assoc] at away
        exact away
      rcases ih _ behind moved with ⟨first, second, rfl, front, back⟩
      exact ⟨.found parts :: first, second, rfl, by rw [Segment.join_found, front], back⟩
    · by_cases empty : more = []
      · rw [empty, List.append_nil] at within
        refine ⟨[.found parts], segments, rfl, ?_, ?_⟩
        · rw [Segment.join_found, Segment.join_nil, List.append_nil, within]
        · rw [join_of_walk walk, empty]
          rfl
      · exfalso
        rcases Text.prefix_fold (body_within stands within empty begins) with ⟨body, tail, rfl, folded⟩
        apply outside (parts.placed base) List.mem_cons_self
        have size : Text.bytes body = bodyWord.bytes := by rw [← Text.bytes_fold, folded]
        rw [stop_placed, within, Text.bytes_append, Text.bytes_append, size]
        refine ⟨Nat.le_add_right base _, ?_⟩
        omega

/-! ### The walk with the scripts -/

section
variable (held : Nat → Bool) {page : Text} {segments : List (Segment Parts)} {codes : List Text}

def rewritten (held : Nat → Bool) (element : Element) : Parts :=
  if held element.start then element.parts.marked else element.parts

theorem scripts_head (codes : List Text) :
    codes.flatMap Emitter.script = [] ∨ ∃ rest, codes.flatMap Emitter.script = '<' :: rest := by
  cases codes with
  | nil => exact .inl rfl
  | cons code codes => exact .inr ⟨_, rfl⟩

theorem insert_before_body (walk : Walk page segments) {before after : Text} (last : LastBody page before after)
    (outside : ∀ element ∈ elementsAt 0 segments,
      ¬ (element.start ≤ before.bytes ∧ before.bytes + bodyWord.bytes ≤ element.stop))
    (free : ∀ code ∈ codes, ¬ endWord <:+: Text.fold code) :
    ∃ first second, segments = first ++ second ∧
      Walk (Emitter.insertScripts (codes.flatMap Emitter.script) (Segment.join Parts.text (markAt held 0 segments)))
        (markAt held 0 first ++ (scriptSegments codes ++
          markAt held (Segment.join Parts.text first).bytes second)) := by
  have cut := cut_of_outside walk 0 last.1 last.2.1 (by simpa only [Nat.zero_add] using outside)
  rcases cut with ⟨first, second, rfl, front, back⟩
  refine ⟨first, second, rfl, ?_⟩
  have whole := markAt_append held 0 first second
  rw [Nat.zero_add] at whole
  have marked := walk_markAt held walk 0
  have lastMarked := lastBody_marked held walk last back (Segment.join Parts.text first).bytes
  rw [whole] at marked ⊢
  rw [Segment.join_append, insertScripts_body lastMarked, ← join_scriptSegments, List.append_assoc,
    ← Segment.join_append, ← Segment.join_append]
  rcases Text.prefix_fold lastMarked.2.1 with ⟨body, rest, shape, folded⟩
  rcases body_eq folded with ⟨letters, rfl, _⟩
  apply walk_replace marked (walk_scripts free (walk_behind marked))
  · intro c t begins
    apply begins_of_toBracket begins
    rw [Segment.join_append, join_scriptSegments, shape]
    rcases scripts_head codes with none | ⟨scripts, some⟩
    · rw [none]
      rfl
    · rw [some]
      exact toBracket_bracket t _ _
  · intro empty
    rw [shape] at empty
    cases empty

theorem missingBreak_cases (t : Text) : Emitter.missingBreak t = [] ∨ Emitter.missingBreak t = ['\n'] := by
  unfold Emitter.missingBreak
  split
  · exact .inl rfl
  · split
    · exact .inl rfl
    · exact .inr rfl

theorem insert_at_end (walk : Walk page segments) (absent : ¬ bodyWord <:+: Text.fold page)
    (ended : ∀ element ∈ elementsAt 0 segments, '>' ∈ element.closing)
    (free : ∀ code ∈ codes, ¬ endWord <:+: Text.fold code) :
    ∃ gap : Text, Walk
      (Emitter.insertScripts (codes.flatMap Emitter.script) (Segment.join Parts.text (markAt held 0 segments)))
      (markAt held 0 segments ++ (gap.map .plain ++ scriptSegments codes)) := by
  have none : ¬ bodyWord <:+: Text.fold (Segment.join Parts.text (markAt held 0 segments)) := by
    intro inside
    exact absent (body_of_marked held walk 0 [] (Nat.le_refl 0) inside)
  rw [insertScripts_end none]
  generalize breaking : Emitter.missingBreak (Segment.join Parts.text (markAt held 0 segments)) = gap
  have breaks : gap = [] ∨ gap = ['\n'] := breaking ▸ missingBreak_cases _
  have bare : '<' ∉ gap := by rcases breaks with rfl | rfl <;> decide
  refine ⟨gap, ?_⟩
  have nothing : Walk (Segment.join Parts.text []) [] := .done
  have scripts := walk_scripts free nothing
  rw [List.append_nil] at scripts
  have text : Segment.join Parts.text (gap.map .plain ++ scriptSegments codes) =
      gap ++ codes.flatMap Emitter.script := by
    rw [Segment.join_append, Segment.join_map_plain, join_scriptSegments]
  have behind := walk_letters bare scripts
  rw [join_scriptSegments, ← text] at behind
  rw [List.append_assoc, ← text, ← Segment.join_append]
  have marked : Walk (Segment.join Parts.text (markAt held 0 segments)) (markAt held 0 segments ++ []) := by
    rw [List.append_nil]
    exact walk_markAt held walk 0
  apply walk_replace marked behind
  · intro c t begins
    rw [text] at begins
    rw [Segment.join_nil, List.append_nil]
    rcases breaks with rfl | rfl
    · rcases scripts_head codes with nothing | ⟨more, some⟩
      · rw [nothing, List.nil_append, List.append_nil] at begins
        exact begins
      · rw [some, List.nil_append] at begins
        exact begins_of_append (by decide) begins
    · exact begins_of_append (by decide) begins
  · intro _
    exact ended_markAt held 0 segments ended

theorem elements_insertScripts (walk : Walk page segments) (apart : Apart page (elementsAt 0 segments))
    (free : ∀ code ∈ codes, ¬ endWord <:+: Text.fold code) :
    ∃ walked first second,
      elements (Emitter.insertScripts (codes.flatMap Emitter.script)
        (Segment.join Parts.text (markAt held 0 segments))) = .ok walked ∧
      elementsAt 0 segments = first ++ second ∧
      walked.map Element.parts =
        first.map (rewritten held) ++ codes.map generated ++ second.map (rewritten held) := by
  cases found : Text.splitLastFolded? bodyWord page with
  | some cut =>
    rcases cut with ⟨before, after⟩
    have last := (lastBody_iff page before after).mp found
    rcases insert_before_body held walk last (apart.body before after last) free with ⟨first, second, rfl, edited⟩
    refine ⟨_, _, _, (elements_eq_ok_iff _ _).mpr ⟨_, edited, rfl⟩, elementsAt_append 0 first second, ?_⟩
    rw [elementsAt_append, elementsAt_append, List.map_append, List.map_append, elementsAt_markAt,
      elementsAt_scriptSegments, elementsAt_markAt, List.append_assoc, Nat.zero_add]
    rfl
  | none =>
    have absent := Text.splitLastFolded?_eq_none_iff.mp found
    have never : ∀ before after, ¬ LastBody page before after := by
      intro before after last
      rw [(lastBody_iff page before after).mpr last] at found
      cases found
    rcases insert_at_end held walk absent (apart.ended never) free with ⟨gap, edited⟩
    refine ⟨_, elementsAt 0 segments, [], (elements_eq_ok_iff _ _).mpr ⟨_, edited, rfl⟩,
      (List.append_nil _).symm, ?_⟩
    rw [elementsAt_append, elementsAt_append, elementsAt_plain, List.nil_append, List.map_append,
      elementsAt_markAt, elementsAt_scriptSegments, List.map_nil, List.append_nil]
    rfl

end

end TagCalls.Page
