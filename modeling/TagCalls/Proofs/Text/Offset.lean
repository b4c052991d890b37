import TagCalls.Span

/-!
Byte offsets in a text: an offset between two characters fixes the two parts of the text. Then the
replacing of parts by their spans, `splice`, which keeps every byte outside the spans.
-/
namespace TagCalls.Text

theorem bytes_eq_zero {t : Text} : bytes t = 0 ↔ t = [] := by
  constructor
  · intro empty
    have short := length_le_bytes t
    exact List.length_eq_zero_iff.mp (by omega)
  · intro same
    subst same
    rfl

theorem append_eq_append_of_bytes_le {first second : Text} {behind rest : Text}
    (same : first ++ behind = second ++ rest) (order : first.bytes ≤ second.bytes) :
    ∃ gap, second = first ++ gap ∧ behind = gap ++ rest := by
  rcases List.append_eq_append_iff.mp same with ⟨gap, longer, split⟩ | ⟨gap, longer, split⟩
  · exact ⟨gap, longer, split⟩
  · rw [longer, bytes_append] at order
    obtain rfl : gap = [] := bytes_eq_zero.mp (by omega)
    exact ⟨[], by simp [longer], by simpa using split.symm⟩

theorem append_inj_of_bytes {first second behind rest : Text}
    (same : first ++ behind = second ++ rest) (level : first.bytes = second.bytes) :
    first = second ∧ behind = rest := by
  rcases append_eq_append_of_bytes_le same (Nat.le_of_eq level) with ⟨gap, longer, split⟩
  rw [longer, bytes_append] at level
  obtain rfl : gap = [] := bytes_eq_zero.mp (by omega)
  exact ⟨by simpa using longer.symm, by simpa using split⟩

theorem dropBytes_first_cut (offset : Nat) (t : Text) :
    ∃ before, t = before ++ dropBytes offset t ∧ (offset ≤ before.bytes ∨ dropBytes offset t = []) ∧
      ∀ first behind, t = first ++ behind → offset ≤ first.bytes → before.bytes ≤ first.bytes := by
  induction t generalizing offset with
  | nil =>
    cases offset with
    | zero => exact ⟨[], rfl, .inl (Nat.le_refl _), fun _ _ _ _ => Nat.zero_le _⟩
    | succ offset => exact ⟨[], rfl, .inr rfl, fun _ _ _ _ => Nat.zero_le _⟩
  | cons c t ih =>
    cases offset with
    | zero => exact ⟨[], rfl, .inl (Nat.le_refl _), fun _ _ _ _ => Nat.zero_le _⟩
    | succ offset =>
      rcases ih (offset + 1 - c.utf8Size) with ⟨before, split, reached, least⟩
      refine ⟨c :: before, by rw [dropBytes, List.cons_append, ← split], ?_, ?_⟩
      · rcases reached with reached | reached
        · left
          rw [bytes]
          omega
        · exact .inr (by rw [dropBytes, reached])
      · intro first behind cut reached
        cases first with
        | nil => simp [bytes] at reached
        | cons d first =>
          rcases List.cons.inj cut with ⟨rfl, tail⟩
          simp only [bytes] at reached ⊢
          have bound := least first behind tail (by omega)
          omega

def cuts : Text → List (Text × Text)
  | [] => [([], [])]
  | c :: t => ([], c :: t) :: (cuts t).map fun (before, after) => (c :: before, after)

theorem mem_cuts {t before after : Text} : (before, after) ∈ cuts t ↔ t = before ++ after := by
  induction t generalizing before with
  | nil => simp [cuts, eq_comm]
  | cons c t ih =>
    cases before with
    | nil => simp [cuts, eq_comm]
    | cons d before =>
      rw [List.cons_append, List.cons.injEq, ← ih]
      constructor
      · intro member
        simp only [cuts, List.mem_cons, List.mem_map, Prod.exists, Prod.mk.injEq] at member
        rcases member with ⟨empty, _⟩ | ⟨first, second, cut, ⟨rfl, rfl⟩, rfl⟩
        · cases empty
        · exact ⟨rfl, cut⟩
      · intro both
        rcases both with ⟨rfl, cut⟩
        exact List.mem_cons_of_mem _ (List.mem_map.mpr ⟨_, cut, rfl⟩)

theorem slice?_append (before part after : Text) :
    slice? (before ++ part ++ after) ⟨before.bytes, (before ++ part).bytes⟩ = some part := by
  have whole : splitAt? (before ++ part).bytes (before ++ part ++ after) = some (before ++ part, after) :=
    splitAt?_append (before ++ part) after
  have front : splitAt? before.bytes (before ++ part) = some (before, part) := splitAt?_append before part
  simp only [slice?, whole, front, Option.bind_eq_bind, Option.bind_some, Option.pure_def]

theorem splitAt?_eq_some {offset : Nat} {t before after : Text}
    (split : splitAt? offset t = some (before, after)) : t = before ++ after ∧ before.bytes = offset := by
  induction t generalizing offset before with
  | nil =>
    cases offset with
    | zero =>
      cases split
      exact ⟨rfl, rfl⟩
    | succ offset => cases split
  | cons c t ih =>
    cases offset with
    | zero =>
      cases split
      exact ⟨rfl, rfl⟩
    | succ offset =>
      rw [splitAt?] at split
      split at split
      · next fits =>
        obtain ⟨⟨front, behind⟩, deeper, same⟩ := Option.map_eq_some_iff.mp split
        cases same
        obtain ⟨rfl, size⟩ := ih deeper
        refine ⟨rfl, ?_⟩
        rw [bytes, size]
        omega
      · cases split

theorem slice?_eq_some_iff {t part : Text} {span : Span} :
    slice? t span = some part ↔
      ∃ before after, t = before ++ part ++ after ∧ span = ⟨before.bytes, (before ++ part).bytes⟩ := by
  constructor
  · intro sliced
    simp only [slice?, Option.bind_eq_bind, Option.bind_eq_some_iff, Prod.exists, Option.pure_def,
      Option.some.injEq] at sliced
    obtain ⟨head, after, whole, before, _, front, rfl⟩ := sliced
    obtain ⟨rfl, stop⟩ := splitAt?_eq_some whole
    obtain ⟨rfl, start⟩ := splitAt?_eq_some front
    refine ⟨before, after, rfl, ?_⟩
    rw [start, stop]
  · intro cut
    obtain ⟨before, after, rfl, rfl⟩ := cut
    exact slice?_append before part after

/-! ### Replacing the text under spans -/

/-- A text that begins at the offset `base`, with the parts under some spans replaced and all else
kept. The spans must come in order and begin and end between characters. -/
def splice (base : Nat) (t : Text) : List (Span × Text) → Option Text
  | [] => some t
  | (span, new) :: edits =>
    if base ≤ span.start ∧ span.start ≤ span.stop then do
      let (kept, ahead) ← splitAt? (span.start - base) t
      let (_, behind) ← splitAt? (span.stop - span.start) ahead
      let rest ← splice span.stop behind edits
      return kept ++ new ++ rest
    else none

theorem splitAt?_cons {offset : Nat} {c : Char} {t before after : Text}
    (split : splitAt? offset t = some (before, after)) :
    splitAt? (c.utf8Size + offset) (c :: t) = some (c :: before, after) := by
  have positive := c.utf8Size_pos
  obtain ⟨n, size⟩ : ∃ n, c.utf8Size + offset = n + 1 := ⟨c.utf8Size + offset - 1, by omega⟩
  have left : n + 1 - c.utf8Size = offset := by omega
  rw [size, splitAt?, if_pos (by omega), left, split]
  rfl

theorem splice_head {base : Nat} {old new behind rest : Text} {edits : List (Span × Text)}
    (more : splice (base + old.bytes) behind edits = some rest) :
    splice base (old ++ behind) ((⟨base, base + old.bytes⟩, new) :: edits) = some (new ++ rest) := by
  have here : splitAt? 0 (old ++ behind) = some ([], old ++ behind) := by simp [splitAt?]
  simp only [splice, Nat.le_refl, Nat.le_add_right, and_self, if_true, Nat.sub_self, here,
    Nat.add_sub_cancel_left, splitAt?_append, more, Option.bind_eq_bind, Option.bind_some,
    List.nil_append, Option.pure_def]

theorem splice_cons {base : Nat} {c : Char} {t out : Text} {edits : List (Span × Text)}
    (spliced : splice (base + c.utf8Size) t edits = some out) :
    splice base (c :: t) edits = some (c :: out) := by
  cases edits with
  | nil =>
    cases spliced
    rfl
  | cons edit edits =>
    rcases edit with ⟨span, new⟩
    simp only [splice] at spliced
    split at spliced
    · next order =>
      simp only [Option.bind_eq_bind, Option.bind_eq_some_iff, Prod.exists, Option.pure_def,
        Option.some.injEq] at spliced
      rcases spliced with ⟨kept, ahead, first, old, behind, second, rest, more, rfl⟩
      have moved : span.start - base = c.utf8Size + (span.start - (base + c.utf8Size)) := by omega
      have order' : base ≤ span.start ∧ span.start ≤ span.stop := by omega
      simp only [splice, if_pos order', moved, splitAt?_cons first, Option.bind_eq_bind,
        Option.bind_some, second, more, Option.pure_def, List.cons_append]
    · cases spliced

theorem splice_skip {base : Nat} {front t out : Text} {edits : List (Span × Text)}
    (spliced : splice (base + front.bytes) t edits = some out) :
    splice base (front ++ t) edits = some (front ++ out) := by
  induction front generalizing base with
  | nil => exact spliced
  | cons c front ih =>
    rw [bytes, ← Nat.add_assoc] at spliced
    exact splice_cons (ih spliced)

theorem splice_eq_some {base : Nat} {t new out : Text} {span : Span} {edits : List (Span × Text)}
    (spliced : splice base t ((span, new) :: edits) = some out) :
    ∃ kept old behind rest, t = kept ++ (old ++ behind) ∧
      span = ⟨base + kept.bytes, base + kept.bytes + old.bytes⟩ ∧
      splice span.stop behind edits = some rest ∧ out = kept ++ (new ++ rest) := by
  rw [splice] at spliced
  split at spliced
  · next order =>
    simp only [Option.bind_eq_bind, Option.bind_eq_some_iff, Prod.exists, Option.pure_def,
      Option.some.injEq] at spliced
    rcases spliced with ⟨kept, ahead, first, old, behind, second, rest, more, rfl⟩
    rcases splitAt?_eq_some first with ⟨rfl, front⟩
    rcases splitAt?_eq_some second with ⟨rfl, size⟩
    refine ⟨kept, old, behind, rest, rfl, ?_, more, List.append_assoc _ _ _⟩
    have start : span.start = base + kept.bytes := by omega
    have stop : span.stop = span.start + old.bytes := by omega
    rw [← start, ← stop]
  · cases spliced

theorem splice_append {base : Nat} {t out rest tail : Text} {edits more : List (Span × Text)}
    (spliced : splice base t edits = some out) (behind : splice (base + t.bytes) rest more = some tail) :
    splice base (t ++ rest) (edits ++ more) = some (out ++ tail) := by
  induction edits generalizing base t out with
  | nil =>
    cases spliced
    exact splice_skip behind
  | cons edit edits ih =>
    rcases splice_eq_some spliced with ⟨kept, old, left, inner, rfl, place, deeper, rfl⟩
    have moved : splice (base + kept.bytes + old.bytes + left.bytes) rest more = some tail := by
      rw [bytes_append, bytes_append] at behind
      rw [Nat.add_assoc, Nat.add_assoc]
      exact behind
    rw [place] at deeper
    have joined := splice_skip (@splice_head _ old edit.2 _ _ _ (ih deeper moved))
    rw [← place] at joined
    simpa only [List.append_assoc, List.cons_append] using joined

/-! ### Insertions -/

def insertion (offset : Nat) (new : Text) : Span × Text := (⟨offset, offset⟩, new)

/-- The offset lies between two characters of a text that begins at `base`, or at an end of it. -/
def Between (base : Nat) (t : Text) (offset : Nat) : Prop :=
  ∃ front back, t = front ++ back ∧ base + front.bytes = offset

theorem between_left {base offset : Nat} {t rest : Text} (between : Between base (t ++ rest) offset)
    (low : offset ≤ base + t.bytes) : Between base t offset := by
  rcases between with ⟨front, back, split, rfl⟩
  rcases append_eq_append_of_bytes_le split.symm (by omega) with ⟨gap, rfl, _⟩
  exact ⟨front, gap, rfl, rfl⟩

theorem between_right {base offset : Nat} {t rest : Text} (between : Between base (t ++ rest) offset)
    (high : base + t.bytes ≤ offset) : Between (base + t.bytes) rest offset := by
  rcases between with ⟨front, back, split, rfl⟩
  rcases append_eq_append_of_bytes_le split (by omega) with ⟨gap, rfl, behind⟩
  exact ⟨gap, back, behind, by rw [bytes_append, Nat.add_assoc]⟩

theorem splice_insertion {base : Nat} {new t out : Text} {edits : List (Span × Text)}
    (more : splice base t edits = some out) : splice base t (insertion base new :: edits) = some (new ++ out) :=
  @splice_head base [] new t out edits more

theorem splice_insertions (new : Text) {base : Nat} {offsets : List Nat} {t : Text}
    (ascending : (base :: offsets).Pairwise (· ≤ ·)) (between : ∀ offset ∈ offsets, Between base t offset) :
    ∃ out, splice base t (offsets.map (insertion · new)) = some out := by
  induction offsets generalizing base t with
  | nil => exact ⟨t, rfl⟩
  | cons offset offsets ih =>
    rcases List.pairwise_cons.mp ascending with ⟨_, later⟩
    rcases between offset List.mem_cons_self with ⟨front, back, rfl, rfl⟩
    have behind : ∀ other ∈ offsets, Between (base + front.bytes) back other := by
      intro other member
      exact between_right (between other (List.mem_cons_of_mem _ member)) ((List.pairwise_cons.mp later).1 other member)
    rcases ih later behind with ⟨out, spliced⟩
    exact ⟨_, splice_skip (splice_insertion spliced)⟩

end TagCalls.Text
