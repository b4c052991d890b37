import TagCalls.Proofs.Tag.Next
import TagCalls.Proofs.Text.Segment

/-!
The scan of a whole source as a walk over its characters: one segment for each character outside
tags and one for each tag. Main statement: `scan_of_walk`, the scan of a source below the limit of
offsets gives the tags of its walk at their places and loses nothing between them.
-/
namespace TagCalls.Tag

/-- A walk from the head of a text, to its end or to a tag that is stuck, whose name it ends with. -/
inductive Walk : Text → List (Segment Tag) → Option Text → Prop
  | done : Walk [] [] none
  | plain {c : Char} {t : Text} {segments : List (Segment Tag)} {ending : Option Text} :
      read (c :: t) = .plain → Walk t segments ending → Walk (c :: t) (.plain c :: segments) ending
  | tagged {t rest : Text} {tag : Tag} {segments : List (Segment Tag)} {ending : Option Text} :
      read t = .tagged tag rest → Walk rest segments ending → Walk t (.found tag :: segments) ending
  | stuck {t name : Text} : read t = .stuck name → Walk t [] (some name)

def tokensAt : Nat → List (Segment Tag) → List Token
  | _, [] => []
  | base, .plain c :: segments => tokensAt (base + c.utf8Size) segments
  | base, .found tag :: segments =>
    ⟨tag, ⟨base, base + tag.render.bytes⟩⟩ :: tokensAt (base + tag.render.bytes) segments

theorem walk_exists (t : Text) : ∃ segments ending, Walk t segments ending := by
  induction size : t.length using Nat.strongRecOn generalizing t with
  | ind n ih =>
    cases found : read t with
    | stuck name => exact ⟨[], some name, .stuck found⟩
    | tagged tag rest =>
      rcases render_of_read found with ⟨split, _⟩
      have shorter : rest.length < n := by
        have positive := List.length_pos_iff.mpr (render_ne_nil tag)
        rw [split, List.length_append] at size
        omega
      rcases ih _ shorter rest rfl with ⟨segments, ending, walk⟩
      exact ⟨_, _, .tagged found walk⟩
    | plain =>
      cases t with
      | nil => exact ⟨[], none, .done⟩
      | cons c t =>
        rcases ih t.length (by simp [← size]) t rfl with ⟨segments, ending, walk⟩
        exact ⟨_, _, .plain found walk⟩

theorem join_render_of_walk {t : Text} {segments : List (Segment Tag)} (walk : Walk t segments none) :
    Segment.join render segments = t := by
  generalize atEnd : (none : Option Text) = ending at walk
  induction walk with
  | done => rfl
  | plain _ _ ih => rw [Segment.join_plain, ih atEnd]
  | tagged found _ ih => rw [Segment.join_found, ih atEnd, ← (render_of_read found).1]
  | stuck => cases atEnd

theorem tokensAt_append (base : Nat) (first second : List (Segment Tag)) :
    tokensAt base (first ++ second) =
      tokensAt base first ++ tokensAt (base + (Segment.join render first).bytes) second := by
  induction first generalizing base with
  | nil => rfl
  | cons segment first ih =>
    cases segment with
    | plain c =>
      rw [List.cons_append, tokensAt, ih, Segment.join_plain, Text.bytes, Nat.add_assoc]
      rfl
    | found tag =>
      rw [List.cons_append, tokensAt, ih, Segment.join_found, Text.bytes_append, Nat.add_assoc]
      rfl

theorem splice_tokensAt (write : Tag → Text) (base : Nat) (segments : List (Segment Tag)) :
    Text.splice base (Segment.join render segments)
      ((tokensAt base segments).map fun token => (token.span, write token.tag)) =
      some (Segment.join write segments) := by
  induction segments generalizing base with
  | nil => rfl
  | cons segment segments ih =>
    cases segment with
    | plain c => exact Text.splice_cons (ih (base + c.utf8Size))
    | found tag => exact Text.splice_head (ih (base + tag.render.bytes))

/-! ### One step of the walk in the scan -/

def Scan.pushChar (c : Char) : Scan → Scan
  | ⟨(gap, token) :: pieces, ending⟩ => ⟨(c :: gap, token) :: pieces, ending⟩
  | ⟨[], .ok tail⟩ => ⟨[], .ok (c :: tail)⟩
  | ⟨[], .error failure⟩ => ⟨[], .error failure⟩

namespace Scanner

theorem run_of_token {scanner : Scanner} {gap : Text} {token : Token} {position : Nat}
    (step : scanner.next = .token gap token position) (forward : scanner.position < position)
    (inside : position ≤ scanner.source.bytes) :
    scanner.run = (run (scanner.after (.token gap token position))).push gap token := by
  rw [run, step]
  simp only [if_pos (And.intro forward inside)]

theorem run_of_failure {scanner : Scanner} {gap : Text} {failure : Unterminated}
    (step : scanner.next = .failure gap failure) : scanner.run = ⟨[], .error failure⟩ := by
  rw [run, step]

theorem run_of_done {scanner : Scanner} {tail : Text} (step : scanner.next = .done tail) :
    scanner.run = ⟨[], .ok tail⟩ := by
  rw [run, step]

section

variable {source before ahead : Text}

theorem next_at_cut (small : source.bytes ≤ Span.maxOffset) (cut : source = before ++ ahead) :
    next { source, position := before.bytes } = stepAt source before ahead :=
  next_eq_stepAt small cut (by rw [cut, Text.dropBytes_append])

theorem run_of_found {gap rest : Text} {tag : Tag} (small : source.bytes ≤ Span.maxOffset)
    (cut : source = before ++ ahead) (found : find ahead = .tagged gap tag rest) :
    run { source, position := before.bytes } =
      (run { source, position := source.bytes - rest.bytes }).push gap
        ⟨tag, ⟨(before ++ gap).bytes, source.bytes - rest.bytes⟩⟩ := by
  have finds := finds_find ahead
  rw [found] at finds
  cases finds with
  | @tagged gap head rest tag silent stands =>
    rcases render_of_stands stands with ⟨split, _⟩
    have size : source.bytes = before.bytes + gap.bytes + tag.render.bytes + rest.bytes := by
      rw [cut, split]
      simp only [Text.bytes_append]
      omega
    have positive : tag.render.bytes ≠ 0 := fun empty => render_ne_nil tag (Text.bytes_eq_zero.mp empty)
    have step := next_at_cut small cut
    rw [stepAt, found] at step
    exact run_of_token step (by dsimp only; omega) (Nat.sub_le _ _)

theorem run_of_plain {c : Char} {t : Text} (small : source.bytes ≤ Span.maxOffset)
    (cut : source = before ++ c :: t) (plain : read (c :: t) = .plain) :
    run { source, position := before.bytes } =
      (run { source, position := (before ++ [c]).bytes }).pushChar c := by
  have cut' : source = (before ++ [c]) ++ t := by simpa using cut
  have pushed : find (c :: t) = (find t).push c := by rw [find, plain]
  have step := next_at_cut small cut
  have step' := next_at_cut small cut'
  rw [stepAt, pushed] at step
  rw [stepAt] at step'
  cases found : find t with
  | none =>
    rw [found] at step step'
    rw [run_of_done step, run_of_done step']
    rfl
  | stuck gap name =>
    rw [found] at step step'
    rw [run_of_failure step, run_of_failure step']
    simp [Scan.pushChar]
  | tagged gap tag rest =>
    rw [found] at pushed
    rw [run_of_found small cut pushed, run_of_found small cut' found]
    simp [Scan.push, Scan.pushChar]

theorem run_of_tagged {tag : Tag} {rest : Text} (small : source.bytes ≤ Span.maxOffset)
    (cut : source = before ++ ahead) (found : read ahead = .tagged tag rest) :
    run { source, position := before.bytes } =
      (run { source, position := (before ++ tag.render).bytes }).push []
        ⟨tag, ⟨before.bytes, before.bytes + tag.render.bytes⟩⟩ := by
  rcases render_of_read found with ⟨split, _⟩
  have first : find ahead = .tagged [] tag rest := by
    cases ahead with
    | nil => cases found
    | cons c t => rw [find, found]
  have stop : source.bytes - rest.bytes = (before ++ tag.render).bytes := by
    rw [cut, split]
    simp only [Text.bytes_append]
    omega
  rw [run_of_found small cut first, stop, List.append_nil, Text.bytes_append]

theorem run_of_stuck {name : Text} (small : source.bytes ≤ Span.maxOffset)
    (cut : source = before ++ ahead) (found : read ahead = .stuck name) :
    run { source, position := before.bytes } = ⟨[], .error ⟨name, ⟨before.bytes, source.bytes⟩⟩⟩ := by
  have first : find ahead = .stuck [] name := by
    cases ahead with
    | nil => cases found
    | cons c t => rw [find, found]
  have step := next_at_cut small cut
  rw [stepAt, first] at step
  have failed := run_of_failure step
  rwa [List.append_nil] at failed

theorem run_at_end (small : source.bytes ≤ Span.maxOffset) (cut : source = before) :
    run { source, position := before.bytes } = ⟨[], .ok []⟩ :=
  run_of_done (next_at_cut small (by rw [cut, List.append_nil]))

end

end Scanner

/-! ### The whole scan -/

namespace Scan

def spell (write : Tag → Text) (scan : Scan) (tail : Text) : Text :=
  scan.pieces.flatMap (fun (gap, token) => gap ++ write token.tag) ++ tail

/-- The scan has the tags of a walk that begins at `base`, and ends as the walk does. -/
structure Follows (scan : Scan) (base size : Nat) (segments : List (Segment Tag)) (ending : Option Text) :
    Prop where
  tokens : scan.tokens = tokensAt base segments
  done : ending = none → ∃ tail, scan.ending = .ok tail ∧
    ∀ write, scan.spell write tail = Segment.join write segments
  stuck : ∀ name, ending = some name →
    scan.ending = .error ⟨name, ⟨base + (Segment.join render segments).bytes, size⟩⟩

theorem follows_pushChar {scan : Scan} {base size : Nat} {segments : List (Segment Tag)}
    {ending : Option Text} (c : Char) (follows : scan.Follows (base + c.utf8Size) size segments ending) :
    (scan.pushChar c).Follows base size (.plain c :: segments) ending := by
  rcases follows with ⟨tokens, done, stuck⟩
  rcases scan with ⟨pieces, result⟩
  refine ⟨?_, ?_, ?_⟩
  · rw [tokensAt, ← tokens]
    rcases pieces with _ | ⟨⟨gap, token⟩, pieces⟩
    · cases result <;> rfl
    · rfl
  · intro atEnd
    rcases done atEnd with ⟨tail, ended, spelled⟩
    dsimp only at ended
    subst ended
    rcases pieces with _ | ⟨⟨gap, token⟩, pieces⟩
    · exact ⟨c :: tail, rfl, fun write => by rw [Segment.join_plain, ← spelled]; rfl⟩
    · exact ⟨tail, rfl, fun write => by rw [Segment.join_plain, ← spelled]; rfl⟩
  · intro name atEnd
    have failed := stuck name atEnd
    dsimp only at failed
    subst failed
    have place : base + (Segment.join render (.plain c :: segments)).bytes =
        base + c.utf8Size + (Segment.join render segments).bytes := by
      rw [Segment.join_plain, Text.bytes, Nat.add_assoc]
    rw [place]
    rcases pieces with _ | ⟨⟨gap, token⟩, pieces⟩ <;> rfl

theorem follows_push {scan : Scan} {base size : Nat} {tag : Tag} {segments : List (Segment Tag)}
    {ending : Option Text} (follows : scan.Follows (base + tag.render.bytes) size segments ending) :
    (scan.push [] ⟨tag, ⟨base, base + tag.render.bytes⟩⟩).Follows base size (.found tag :: segments)
      ending := by
  refine ⟨?_, ?_, ?_⟩
  · rw [tokensAt, ← follows.tokens]
    rfl
  · intro atEnd
    rcases follows.done atEnd with ⟨tail, ended, spelled⟩
    refine ⟨tail, ended, fun write => ?_⟩
    rw [Segment.join_found, ← spelled]
    simp [spell, push]
  · intro name atEnd
    rw [Segment.join_found, Text.bytes_append, ← Nat.add_assoc]
    exact follows.stuck name atEnd

end Scan

theorem run_of_walk {source before ahead : Text} {segments : List (Segment Tag)} {ending : Option Text}
    (small : source.bytes ≤ Span.maxOffset) (cut : source = before ++ ahead) (walk : Walk ahead segments ending) :
    (Scanner.run { source, position := before.bytes }).Follows before.bytes source.bytes segments
      ending := by
  induction walk generalizing before with
  | done =>
    rw [Scanner.run_at_end small (by simpa using cut)]
    exact ⟨rfl, fun _ => ⟨[], rfl, fun _ => rfl⟩, fun _ atEnd => by cases atEnd⟩
  | @plain c t segments ending plain walk ih =>
    have place : (before ++ [c]).bytes = before.bytes + c.utf8Size := by
      simp [Text.bytes_append, Text.bytes]
    have follows := @ih (before ++ [c]) (by simpa using cut)
    rw [Scanner.run_of_plain small cut plain]
    rw [place] at follows ⊢
    exact Scan.follows_pushChar c follows
  | @tagged t rest tag segments ending found walk ih =>
    have follows := @ih (before ++ tag.render) (by rw [cut, (render_of_read found).1]; simp)
    rw [Scanner.run_of_tagged small cut found]
    rw [Text.bytes_append] at follows ⊢
    exact Scan.follows_push follows
  | stuck found =>
    rw [Scanner.run_of_stuck small cut found]
    refine ⟨rfl, fun atEnd => (by cases atEnd), ?_⟩
    intro name atEnd
    cases atEnd
    rfl

theorem scan_of_walk {source : Text} {segments : List (Segment Tag)} {ending : Option Text}
    (small : source.bytes ≤ Span.maxOffset) (walk : Walk source segments ending) :
    (scan source).Follows 0 source.bytes segments ending :=
  run_of_walk small (List.nil_append source).symm walk

theorem walk_of_ok (source tail : Text) (small : source.bytes ≤ Span.maxOffset)
    (ended : (scan source).ending = .ok tail) : ∃ segments, Walk source segments none := by
  rcases walk_exists source with ⟨segments, ending, walk⟩
  cases ending with
  | none => exact ⟨segments, walk⟩
  | some name =>
    rw [(scan_of_walk small walk).stuck name rfl] at ended
    cases ended

end TagCalls.Tag
