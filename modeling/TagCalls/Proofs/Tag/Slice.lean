import TagCalls.Proofs.Tag.Walk

/-!
What the spans of a scan cut out of the source: under the span of a tag stands the tag as it is
written, and under the span of a failure the `<` with the name and all that follows it.
-/
namespace TagCalls.Tag

theorem place_of_mem_tokensAt (base : Nat) (segments : List (Segment Tag)) (token : Token)
    (member : token ∈ tokensAt base segments) :
    ∃ before after, Segment.join render segments = before ++ token.tag.render ++ after ∧
      token.span = ⟨base + before.bytes, base + (before ++ token.tag.render).bytes⟩ := by
  induction segments generalizing base with
  | nil => cases member
  | cons segment segments ih =>
    cases segment with
    | plain c =>
      rcases ih (base + c.utf8Size) member with ⟨before, after, split, place⟩
      refine ⟨c :: before, after, ?_, ?_⟩
      · rw [Segment.join_plain, split]
        rfl
      · rw [place, List.cons_append, Text.bytes, Text.bytes, Nat.add_assoc, Nat.add_assoc]
    | found tag =>
      rcases List.mem_cons.mp member with rfl | later
      · exact ⟨[], Segment.join render segments, rfl, rfl⟩
      · rcases ih (base + tag.render.bytes) later with ⟨before, after, split, place⟩
        refine ⟨tag.render ++ before, after, ?_, ?_⟩
        · rw [Segment.join_found, split]
          simp only [List.append_assoc]
        · rw [place]
          simp only [Text.bytes_append, Nat.add_assoc]

theorem split_of_walk {t : Text} {segments : List (Segment Tag)} {ending : Option Text}
    (walk : Walk t segments ending) :
    ∃ rest, t = Segment.join render segments ++ rest ∧
      ∀ name, ending = some name → read rest = .stuck name := by
  induction walk with
  | done => exact ⟨[], rfl, fun _ stuck => by cases stuck⟩
  | plain _ _ ih =>
    rcases ih with ⟨rest, split, stuck⟩
    refine ⟨rest, ?_, stuck⟩
    rw [Segment.join_plain, List.cons_append, ← split]
  | @tagged t rest tag segments ending found _ ih =>
    rcases ih with ⟨left, split, stuck⟩
    refine ⟨left, ?_, stuck⟩
    rw [Segment.join_found, List.append_assoc, ← split]
    exact (render_of_read found).1
  | @stuck t name found =>
    refine ⟨t, rfl, ?_⟩
    intro other same
    cases same
    exact found

theorem slice?_of_mem_tokens (source : Text) (token : Token) (small : source.bytes ≤ Span.maxOffset)
    (member : token ∈ (scan source).tokens) : source.slice? token.span = some token.tag.render := by
  rcases walk_exists source with ⟨segments, ending, walk⟩
  rw [(scan_of_walk small walk).tokens] at member
  rcases place_of_mem_tokensAt 0 segments token member with ⟨before, after, split, place⟩
  rcases split_of_walk walk with ⟨rest, whole, _⟩
  have cut : source = before ++ token.tag.render ++ (after ++ rest) := by
    rw [whole, split]
    simp only [List.append_assoc]
  rw [place, Nat.zero_add, Nat.zero_add, cut]
  exact Text.slice?_append before token.tag.render (after ++ rest)

theorem slice?_of_failure (source : Text) (failure : Unterminated) (small : source.bytes ≤ Span.maxOffset)
    (ended : (scan source).ending = .error failure) :
    ∃ raw, source.slice? failure.span = some ('<' :: (failure.name ++ raw)) ∧
      failure.span.stop = source.bytes := by
  rcases walk_exists source with ⟨segments, ending, walk⟩
  have follows := scan_of_walk small walk
  cases ending with
  | none =>
    rcases follows.done rfl with ⟨tail, done, _⟩
    rw [done] at ended
    cases ended
  | some name =>
    have failed := follows.stuck name rfl
    rw [failed] at ended
    cases ended
    rcases split_of_walk walk with ⟨rest, whole, stuck⟩
    have stands : Stands rest (.stuck name) := read_eq_iff.mpr ⟨stuck name rfl, by simp⟩
    have slice := Text.slice?_append (Segment.join render segments) rest []
    rw [List.append_nil, ← whole] at slice
    rw [Nat.zero_add]
    cases stands with
    | @stuck _ behind => exact ⟨behind, slice, rfl⟩

end TagCalls.Tag
