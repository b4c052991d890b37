import TagCalls.Proofs.Lowering.Balance
import TagCalls.Proofs.Tag.Pattern
import TagCalls.Transpile.Session

/-!
Where the two lowerings agree. The three passes look at angle brackets only and each reads what the one
before has written. On a source whose brackets cannot be mistaken they still replace exactly the tags
that the scan finds, whether or not these are balanced.
-/
namespace TagCalls.Lowering

open Tag (Token)
open Text (NameStops)

/-- The brackets of a source with these tags mean to the passes what they mean to the scan. -/
structure Unambiguous (source : Text) (tokens : List Token) : Prop where
  /-- No value hides a bracket. -/
  insides : ∀ token ∈ tokens, '<' ∉ token.tag.raw ∧ '>' ∉ token.tag.raw
  /-- No `<` stands right before a self-closing tag. -/
  apart : ∀ token ∈ tokens, token.tag.kind = .selfClosing →
    ∀ before after, source = before ++ '<' :: after → (before ++ ['<']).bytes ≠ token.span.start
  /-- A `<` outside all tags that a name follows has no `>` behind it. -/
  unclosed : ∀ before c after, source = before ++ '<' :: c :: after → Text.isNameChar c →
    (∀ token ∈ tokens, before.bytes < token.span.start ∨ token.span.stop ≤ before.bytes) →
    '>' ∉ c :: after

instance (source : Text) (tokens : List Token) : Decidable (Unambiguous source tokens) :=
  decidable_of_iff
    ((∀ token ∈ tokens, '<' ∉ token.tag.raw ∧ '>' ∉ token.tag.raw) ∧
      (∀ token ∈ tokens, token.tag.kind = .selfClosing → ∀ cut ∈ source.cuts,
        cut.2.head? = some '<' → (cut.1 ++ ['<']).bytes ≠ token.span.start) ∧
      ∀ cut ∈ source.cuts, cut.2.head? = some '<' → cut.2.tail.head?.any Text.isNameChar →
        (∀ token ∈ tokens, cut.1.bytes < token.span.start ∨ token.span.stop ≤ cut.1.bytes) →
        '>' ∉ cut.2.tail) <| by
    constructor
    · intro checked
      rcases checked with ⟨insides, apart, unclosed⟩
      refine ⟨insides, ?_, ?_⟩
      · intro token member kind before after cut
        exact apart token member kind (before, '<' :: after) (Text.mem_cuts.mpr cut) rfl
      · intro before c after cut letter outside
        exact unclosed (before, '<' :: c :: after) (Text.mem_cuts.mpr cut) rfl letter outside
    · intro clean
      rcases clean with ⟨insides, apart, unclosed⟩
      refine ⟨insides, ?_, ?_⟩
      · intro token member kind place cut opens
        rcases place with ⟨before, behind⟩
        rcases List.head?_eq_some_iff.mp opens with ⟨after, rfl⟩
        exact apart token member kind before after (Text.mem_cuts.mp cut)
      · intro place cut opens named outside
        rcases place with ⟨before, behind⟩
        rcases List.head?_eq_some_iff.mp opens with ⟨after, rfl⟩
        rcases (Option.any_eq_true _ _).mp named with ⟨c, next, letter⟩
        rcases List.head?_eq_some_iff.mp next with ⟨rest, rfl⟩
        exact unclosed before c rest (Text.mem_cuts.mp cut) letter outside

/-! ### The same for the segments of a walk -/

/-- No pass can read at a `<` before these segments. -/
structure Bare (segments : List (Segment Tag)) : Prop where
  bracket : NameStops (Segment.join Tag.render segments) ∨ '>' ∉ Segment.join Tag.render segments
  closing : Tag.closing.read? ('<' :: Segment.join Tag.render segments) = none
  apart : ∀ tag rest, segments = .found tag :: rest → tag.kind ≠ .selfClosing

inductive Clear : List (Segment Tag) → Prop
  | nil : Clear []
  | plain {c : Char} {segments : List (Segment Tag)} :
      (c = '<' → Bare segments) → Clear segments → Clear (.plain c :: segments)
  | found {tag : Tag} {segments : List (Segment Tag)} : tag.WellFormed → '<' ∉ tag.raw → '>' ∉ tag.raw →
      Clear segments → Clear (.found tag :: segments)

theorem start_of_mem_tokensAt (base : Nat) (segments : List (Segment Tag)) (token : Token)
    (member : token ∈ Tag.tokensAt base segments) : base ≤ token.span.start := by
  induction segments generalizing base with
  | nil => cases member
  | cons segment segments ih =>
    cases segment with
    | plain c => exact Nat.le_trans (Nat.le_add_right _ _) (ih _ member)
    | found tag =>
      rcases List.mem_cons.mp member with rfl | later
      · exact Nat.le_refl _
      · exact Nat.le_trans (Nat.le_add_right _ _) (ih _ later)

theorem closing_read_of_plain (t : Text) (plain : Tag.read ('<' :: t) = .plain) :
    Tag.closing.read? ('<' :: t) = none := by
  change Tag.readClosing? ('<' :: t) = none
  cases found : Tag.readClosing? ('<' :: t) with
  | none => rfl
  | some parts =>
    simp only [Tag.read, if_true, found] at plain
    cases plain

theorem bare_of_walk (source before t : Text) (segments : List (Segment Tag)) (past : List Token)
    (cut : source = before ++ '<' :: t) (plain : Tag.read ('<' :: t) = .plain)
    (walk : Tag.Walk t segments none) (ended : ∀ token ∈ past, token.span.stop ≤ before.bytes)
    (clean : Unambiguous source (past ++ Tag.tokensAt (before.bytes + '<'.utf8Size) segments)) :
    Bare segments := by
  have same := Tag.join_render_of_walk walk
  refine ⟨?_, ?_, ?_⟩
  · rw [same]
    cases t with
    | nil => exact .inl Text.nameStops_nil
    | cons c t =>
      by_cases letter : Text.isNameChar c
      · right
        apply clean.unclosed before c t cut letter
        intro token member
        rcases List.mem_append.mp member with gone | ahead
        · exact .inr (ended token gone)
        · have later := start_of_mem_tokensAt _ _ _ ahead
          have one := Char.utf8Size_pos '<'
          exact .inl (by omega)
      · exact .inl (Text.nameStops_cons.mpr (by simpa using letter))
  · rw [same]
    exact closing_read_of_plain t plain
  · intro tag rest same kind
    subst same
    have place : (before ++ ['<']).bytes = before.bytes + '<'.utf8Size := by
      rw [Text.bytes_append]
      rfl
    apply clean.apart ⟨tag, _⟩ (List.mem_append_right _ (List.mem_cons_self ..)) kind before t cut
    exact place

theorem clear_of_walk (source before t : Text) (segments : List (Segment Tag)) (past : List Token)
    (cut : source = before ++ t) (walk : Tag.Walk t segments none)
    (ended : ∀ token ∈ past, token.span.stop ≤ before.bytes)
    (clean : Unambiguous source (past ++ Tag.tokensAt before.bytes segments)) : Clear segments := by
  generalize atEnd : (none : Option Text) = ending at walk
  induction walk generalizing before past with
  | done => exact .nil
  | @plain c t segments ending plain walk ih =>
    subst atEnd
    have place : (before ++ [c]).bytes = before.bytes + c.utf8Size := by
      simp [Text.bytes_append, Text.bytes]
    rw [Tag.tokensAt] at clean
    apply Clear.plain
    · intro same
      subst same
      exact bare_of_walk source before t segments past cut plain walk ended clean
    · apply ih (before ++ [c]) past (by simpa using cut)
      · intro token gone
        have bound := ended token gone
        omega
      · rw [place]
        exact clean
      · rfl
  | @tagged t rest tag segments ending found walk ih =>
    subst atEnd
    rcases Tag.render_of_read found with ⟨split, formed⟩
    rw [Tag.tokensAt] at clean
    rcases clean.insides ⟨tag, _⟩ (List.mem_append_right _ (List.mem_cons_self ..)) with ⟨noOpen, noClose⟩
    apply Clear.found formed noOpen noClose
    apply ih (before ++ tag.render) (past ++ [⟨tag, ⟨before.bytes, before.bytes + tag.render.bytes⟩⟩])
    · rw [cut, split, List.append_assoc]
    · intro token gone
      rw [Text.bytes_append]
      rcases List.mem_append.mp gone with gone | last
      · have bound := ended token gone
        omega
      · cases List.mem_singleton.mp last
        exact Nat.le_refl _
    · rw [Text.bytes_append, List.append_assoc]
      exact clean
    · rfl
  | stuck => cases atEnd

/-! ### One pass -/

/-- A tag when the tags of some kinds are lowered and the others still stand as written. -/
def lowered (target : Text) (kinds : List Tag.Kind) (tag : Tag) : Text :=
  if tag.kind ∈ kinds then tag.call target else tag.render

theorem lowered_pos (target : Text) (kinds : List Tag.Kind) (tag : Tag) (listed : tag.kind ∈ kinds) :
    lowered target kinds tag = tag.call target :=
  if_pos listed

theorem lowered_neg (target : Text) (kinds : List Tag.Kind) (tag : Tag) (other : tag.kind ∉ kinds) :
    lowered target kinds tag = tag.render :=
  if_neg other

theorem mem_of_ne_closing (kind : Tag.Kind) (other : kind ≠ .closing) :
    kind ∈ [Tag.Kind.selfClosing, .opening] := by
  cases kind with
  | selfClosing => simp
  | opening => simp
  | closing => exact absurd rfl other

theorem replace_join (p : Pattern Tag) (write before after : Tag → Text)
    (plain : ∀ c segments, Clear (.plain c :: segments) →
      p.read? (c :: Segment.join before segments) = none)
    (found : ∀ tag segments, Clear (.found tag :: segments) →
      p.replace write (before tag ++ Segment.join before segments) =
        after tag ++ p.replace write (Segment.join before segments))
    (segments : List (Segment Tag)) (clear : Clear segments) :
    p.replace write (Segment.join before segments) = Segment.join after segments := by
  induction clear with
  | nil => exact p.replace_nil write
  | plain bare clear ih =>
    rw [Segment.join_plain, Pattern.replace_of_none write (plain _ _ (.plain bare clear)), ih,
      Segment.join_plain]
  | found formed noOpen noClose clear ih =>
    rw [Segment.join_found, found _ _ (.found formed noOpen noClose clear), ih, Segment.join_found]

section

variable (p : Pattern Tag) (write : Tag → Text)
  (elsewhere : ∀ c t, c ≠ '<' → p.read? (c :: t) = none) (tag : Tag) (rest : Text)
  (formed : tag.WellFormed) (noOpen : '<' ∉ tag.raw)

include elsewhere formed noOpen

theorem replace_render (silent : p.read? (tag.render ++ rest) = none) :
    p.replace write (tag.render ++ rest) = tag.render ++ p.replace write rest := by
  rcases Tag.render_eq_cons tag formed noOpen with ⟨tail, shape, absent⟩
  rw [shape, List.cons_append] at silent ⊢
  rw [Pattern.replace_of_none write silent, p.replace_append write '<' elsewhere tail rest absent,
    List.cons_append]

theorem replace_call (target : Text) (absent : '<' ∉ target) :
    p.replace write (tag.call target ++ rest) = tag.call target ++ p.replace write rest :=
  p.replace_append write '<' elsewhere _ rest
    (Tag.not_mem_call '<' (by decide) (by decide) target tag formed.named absent noOpen)

end

/-! ### The three passes -/

theorem selfClosing_elsewhere (c : Char) (t : Text) (other : c ≠ '<') :
    Tag.selfClosing.read? (c :: t) = none :=
  Tag.selfClosing_read_none _ (Tag.readBracketed?_elsewhere c t other)

theorem opening_elsewhere (c : Char) (t : Text) (other : c ≠ '<') :
    Tag.opening.read? (c :: t) = none :=
  Tag.opening_read_none _ (Tag.readBracketed?_elsewhere c t other)

theorem selfClosingPass_join (target : Text) (segments : List (Segment Tag)) (clear : Clear segments) :
    selfClosingPass target (Segment.join Tag.render segments) =
      Segment.join (lowered target [.selfClosing]) segments := by
  apply replace_join _ _ _ _ ?_ ?_ segments clear
  · intro c segments clear
    cases clear with
    | plain bare _ =>
      by_cases other : c = '<'
      · subst other
        exact Tag.selfClosing_read_none _ (Tag.readBracketed?_eq_none _ (bare rfl).bracket)
      · exact selfClosing_elsewhere c _ other
  · intro tag segments clear
    cases clear with
    | found formed noOpen noClose _ =>
      have kept := replace_render Tag.selfClosing (Tag.call target) selfClosing_elsewhere tag
        (Segment.join Tag.render segments) formed noOpen
      cases kind : tag.kind with
      | selfClosing =>
        rw [lowered_pos target _ tag (by simp [kind])]
        exact Pattern.replace_of_read _ (Tag.selfClosing_read_render tag _ formed noClose kind)
      | opening =>
        rw [lowered_neg target _ tag (by simp [kind])]
        exact kept (Tag.selfClosing_read_opening tag _ formed noClose kind)
      | closing =>
        rw [lowered_neg target _ tag (by simp [kind])]
        exact kept (Tag.selfClosing_read_none _ (Tag.readBracketed?_closing tag _ kind))

theorem join_of_unclosed (write : Tag → Text) (segments : List (Segment Tag))
    (absent : '>' ∉ Segment.join Tag.render segments) :
    Segment.join write segments = Segment.join Tag.render segments := by
  induction segments with
  | nil => rfl
  | cons segment segments ih =>
    cases segment with
    | plain c =>
      rw [Segment.join_plain, Segment.join_plain, ih fun member => absent (List.mem_cons_of_mem c member)]
    | found tag => exact absurd (List.mem_append_left _ (Tag.end_mem_render tag)) absent

theorem bracket_lowered (target : Text) (segments : List (Segment Tag)) (bare : Bare segments) :
    NameStops (Segment.join (lowered target [.selfClosing]) segments) ∨
      '>' ∉ Segment.join (lowered target [.selfClosing]) segments := by
  rcases bare.bracket with stops | absent
  · left
    cases segments with
    | nil => exact Text.nameStops_nil
    | cons segment segments =>
      cases segment with
      | plain c => exact Text.nameStops_cons.mpr (Text.nameStops_cons.mp stops)
      | found tag =>
        -- A self-closing tag has been replaced by a call, which may begin with a name.
        have kind := bare.apart tag segments rfl
        rw [Segment.join_found, lowered_neg target _ tag (by simpa using kind)]
        exact Tag.nameStops_render tag _
  · right
    rw [join_of_unclosed _ segments absent]
    exact absent

theorem openingPass_join (target : Text) (noOpen : '<' ∉ target) (segments : List (Segment Tag))
    (clear : Clear segments) :
    openingPass target (Segment.join (lowered target [.selfClosing]) segments) =
      Segment.join (lowered target [.selfClosing, .opening]) segments := by
  apply replace_join _ _ _ _ ?_ ?_ segments clear
  · intro c segments clear
    cases clear with
    | plain bare _ =>
      by_cases other : c = '<'
      · subst other
        have bracket := bracket_lowered target segments (bare rfl)
        exact Tag.opening_read_none _ (Tag.readBracketed?_eq_none _ bracket)
      · exact opening_elsewhere c _ other
  · intro tag segments clear
    cases clear with
    | found formed absent noClose _ =>
      cases kind : tag.kind with
      | selfClosing =>
        rw [lowered_pos target _ tag (by simp [kind]), lowered_pos target _ tag (by simp [kind])]
        exact replace_call _ _ opening_elsewhere tag _ formed absent target noOpen
      | opening =>
        rw [lowered_neg target _ tag (by simp [kind]), lowered_pos target _ tag (by simp [kind])]
        exact Pattern.replace_of_read _ (Tag.opening_read_render tag _ formed noClose kind)
      | closing =>
        rw [lowered_neg target _ tag (by simp [kind]), lowered_neg target _ tag (by simp [kind])]
        apply replace_render _ _ opening_elsewhere tag _ formed absent
        exact Tag.opening_read_none _ (Tag.readBracketed?_closing tag _ kind)

theorem not_mem_call_part (target part rest back : Text) (noClose : '>' ∉ target) (noCall : '(' ∉ part)
    (same : target ++ '(' :: back = part ++ '>' :: rest) : False := by
  rcases List.append_eq_append_iff.mp same with ⟨gap, longer, split⟩ | ⟨gap, longer, split⟩
  · cases gap with
    | nil => simp at split
    | cons c gap =>
      rcases List.cons.inj split with ⟨rfl, _⟩
      exact noCall (by simp [longer])
  · cases gap with
    | nil => simp at split
    | cons c gap =>
      rcases List.cons.inj split with ⟨rfl, _⟩
      exact noClose (by simp [longer])

theorem join_render_of_lowered (target : Text) (noClose : '>' ∉ target) (segments : List (Segment Tag))
    (part rest : Text) (noOpen : '<' ∉ part) (noCall : '(' ∉ part)
    (written : Segment.join (lowered target [.selfClosing, .opening]) segments = part ++ '>' :: rest) :
    ∃ rest, Segment.join Tag.render segments = part ++ '>' :: rest := by
  induction segments generalizing part with
  | nil => simp at written
  | cons segment segments ih =>
    cases segment with
    | plain c =>
      rw [Segment.join_plain] at written ⊢
      cases part with
      | nil =>
        rcases List.cons.inj written with ⟨rfl, _⟩
        exact ⟨_, rfl⟩
      | cons d part =>
        rcases List.cons.inj written with ⟨rfl, behind⟩
        obtain ⟨rest, same⟩ := ih part (List.not_mem_of_not_mem_cons noOpen)
          (List.not_mem_of_not_mem_cons noCall) behind
        exact ⟨rest, by rw [same, List.cons_append]⟩
    | found tag =>
      exfalso
      rw [Segment.join_found] at written
      by_cases kind : tag.kind = .closing
      · rw [lowered_neg target _ tag (by simp [kind])] at written
        rcases Tag.render_head tag with ⟨tail, shape⟩
        rw [shape] at written
        cases part with
        | nil => simp at written
        | cons d part =>
          rcases List.cons.inj written with ⟨rfl, _⟩
          exact noOpen (List.mem_cons_self ..)
      · rw [lowered_pos target _ tag (mem_of_ne_closing tag.kind kind)] at written
        rcases Tag.call_eq_target target tag kind with ⟨tail, shape⟩
        rw [shape, List.append_assoc, List.cons_append] at written
        exact not_mem_call_part target part rest _ noClose noCall written

theorem closing_lowered (target : Text) (noClose : '>' ∉ target) (segments : List (Segment Tag))
    (silent : Tag.closing.read? ('<' :: Segment.join Tag.render segments) = none) :
    Tag.closing.read? ('<' :: Segment.join (lowered target [.selfClosing, .opening]) segments) = none := by
  cases found : Tag.closing.read?
      ('<' :: Segment.join (lowered target [.selfClosing, .opening]) segments) with
  | none => rfl
  | some parts =>
    rcases parts with ⟨tag, rest⟩
    rcases Tag.readClosing?_eq_some_iff.mp found with ⟨name, named, _, same⟩
    have part : Segment.join (lowered target [.selfClosing, .opening]) segments =
        ('/' :: name) ++ '>' :: rest := (List.cons.inj same).2
    have noOpen : '<' ∉ '/' :: name := by simp [Text.not_mem_of_isName (c := '<') named (by decide)]
    have noCall : '(' ∉ '/' :: name := by simp [Text.not_mem_of_isName (c := '(') named (by decide)]
    obtain ⟨behind, original⟩ :=
      join_render_of_lowered target noClose segments ('/' :: name) rest noOpen noCall part
    have read := Tag.readClosing?_written named behind
    rw [original] at silent
    exact absurd (silent.symm.trans read) (by simp)

theorem closingPass_join (target : Text) (noOpen : '<' ∉ target) (noClose : '>' ∉ target)
    (segments : List (Segment Tag)) (clear : Clear segments) :
    closingPass (Segment.join (lowered target [.selfClosing, .opening]) segments) =
      Segment.join (Tag.call target) segments := by
  apply replace_join _ _ _ _ ?_ ?_ segments clear
  · intro c segments clear
    cases clear with
    | plain bare _ =>
      by_cases other : c = '<'
      · subst other
        exact closing_lowered target noClose segments (bare rfl).closing
      · exact Tag.closing_read_elsewhere c _ other
  · intro tag segments clear
    cases clear with
    | found formed absent _ _ =>
      by_cases kind : tag.kind = .closing
      · have same : tag.call [] = tag.call target := by
          rcases tag with ⟨_, name, raw⟩
          cases kind
          rfl
        rw [lowered_neg target _ tag (by simp [kind]), ← same]
        exact Pattern.replace_of_read _ (Tag.closing_read_render tag _ formed kind)
      · rw [lowered_pos target _ tag (mem_of_ne_closing tag.kind kind)]
        exact replace_call _ _ Tag.closing_read_elsewhere tag _ formed absent target noOpen

theorem passes_of_clear (target : Text) (noOpen : '<' ∉ target) (noClose : '>' ∉ target)
    (segments : List (Segment Tag)) (clear : Clear segments) :
    passes target (Segment.join Tag.render segments) = Segment.join (Tag.call target) segments := by
  rw [passes, selfClosingPass_join target segments clear, openingPass_join target noOpen segments clear,
    closingPass_join target noOpen noClose segments clear]

theorem strict_eq_done (target source out : Text) :
    Mode.strict.lowering target source = .done out ↔ nested target source = .ok out := by
  cases result : nested target source with
  | ok output => simp [Mode.lowering, result]
  | error error => simp [Mode.lowering, result]

/-- On an unambiguous source, balanced or not, the passes replace the text under each tag's span by its
call and keep all else. So they give what the lowering of nested tags gives whenever that succeeds. -/
theorem passes_agree_with_scan (target source tail : Text) (small : source.bytes ≤ Span.maxOffset)
    (noOpen : '<' ∉ target) (noClose : '>' ∉ target) (ended : (Tag.scan source).ending = .ok tail)
    (clean : Unambiguous source (Tag.scan source).tokens) :
    Text.splice 0 source ((Tag.scan source).tokens.map fun token =>
        (token.span, token.tag.call target)) = some (passes target source) ∧
      ∀ out, Mode.strict.lowering target source = .done out →
        Mode.compat.lowering target source = .done out := by
  rcases Tag.walk_of_ok source tail small ended with ⟨segments, walk⟩
  have tokens := (Tag.scan_of_walk small walk).tokens
  have same := Tag.join_render_of_walk walk
  rw [tokens] at clean
  have clear := clear_of_walk source [] source segments [] rfl walk (by simp) clean
  have passed : passes target source = Segment.join (Tag.call target) segments := by
    rw [← same]
    exact passes_of_clear target noOpen noClose segments clear
  constructor
  · rw [tokens, passed, ← same]
    exact Tag.splice_tokensAt (Tag.call target) 0 segments
  · intro out strict
    have nest := (strict_eq_done target source out).mp strict
    rcases (nested_eq_ok target source out).mp nest with ⟨_, _, run, _⟩
    rw [tokens] at run
    rw [nested_of_walk target source segments small walk ((run_nil_iff _).mp run)] at nest
    cases nest
    exact congrArg Attempt.done passed

def bracketed : Text :=
  ['<', '-', '<', 'p', ' ', 'a', '=', '{', '1', '}', '>', '<', 'b', '/', '>', '<', '/', 'p', '>', 'i', '<', 'n']

theorem passes_agree_on_bracketed :
    Unambiguous bracketed (Tag.scan bracketed).tokens ∧
      Text.splice 0 bracketed ((Tag.scan bracketed).tokens.map fun token =>
        (token.span, token.tag.call "h".toList)) = some (passes "h".toList bracketed) ∧
      Mode.compat.lowering "h".toList bracketed =
        .done "<-h('p', \x7ba: 1\x7d, h('b', null))i<n".toList := by
  have small : bracketed.bytes ≤ Span.maxOffset := by decide
  have walk : Tag.Walk bracketed
      [.plain '<', .plain '-', .found ⟨.opening, ['p'], [' ', 'a', '=', '{', '1', '}']⟩,
        .found ⟨.selfClosing, ['b'], []⟩, .found ⟨.closing, ['p'], []⟩,
        .plain 'i', .plain '<', .plain 'n'] none :=
    .plain rfl (.plain rfl (.tagged rfl (.tagged rfl (.tagged rfl
      (.plain rfl (.plain rfl (.plain rfl .done)))))))
  have follows := Tag.scan_of_walk small walk
  rcases follows.done rfl with ⟨tail, ended, _⟩
  have clean : Unambiguous bracketed (Tag.scan bracketed).tokens := by
    rw [follows.tokens]
    decide
  have lowered : nested "h".toList bracketed = .ok "<-h('p', \x7ba: 1\x7d, h('b', null))i<n".toList := by
    have parsed : Attribute.parse [' ', 'a', '=', '{', '1', '}'] = [⟨['a'], .expression ['1']⟩] := by
      rw [Attribute.parse, Pattern.occurrences_of_none rfl, Pattern.occurrences_of_read rfl,
        Pattern.occurrences_nil]
      rfl
    have bare : Attribute.parse [] = [] := Pattern.occurrences_nil _
    rw [nested_of_walk "h".toList bracketed _ small walk ((run_nil_iff _).mp rfl)]
    simp [Tag.call, Tag.callHead, parsed, bare, Attribute.literal, Attribute.entry, Attribute.Value.source]
  have agree :=
    passes_agree_with_scan "h".toList bracketed tail small (by decide) (by decide) ended clean
  exact ⟨clean, agree.1, agree.2 _ ((strict_eq_done _ _ _).mpr lowered)⟩

end TagCalls.Lowering
