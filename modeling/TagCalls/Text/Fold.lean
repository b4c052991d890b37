import TagCalls.Text.Basic

/-!
Comparison and search that take the letters A to Z and a to z for the same.
-/
namespace TagCalls.Text

/-- The text in lower case, as far as ASCII letters go. -/
def fold (t : Text) : Text := t.map Char.toLower

def sameFolded (s t : Text) : Bool := fold s == fold t

/-- Splits off a word that the text begins with in some letter case; `word` is in lower case. -/
def takeFolded? : Text → Text → Option (Text × Text)
  | [], t => some ([], t)
  | _ :: _, [] => none
  | x :: word, c :: t =>
    if c.toLower = x then (takeFolded? word t).map fun (taken, rest) => (c :: taken, rest) else none

def splitFolded? (word : Text) : Text → Option (Text × Text × Text)
  | [] => (takeFolded? word []).map fun (taken, rest) => ([], taken, rest)
  | c :: t =>
    match takeFolded? word (c :: t) with
    | some (taken, rest) => some ([], taken, rest)
    | none => (splitFolded? word t).map fun (gap, taken, rest) => (c :: gap, taken, rest)

/-- The parts of the text at the last occurrence of `word` in some letter case, which begins the
second part. -/
def splitLastFolded? (word : Text) : Text → Option (Text × Text)
  | [] => if (takeFolded? word []).isSome then some ([], []) else none
  | c :: t =>
    match splitLastFolded? word t with
    | some (before, after) => some (c :: before, after)
    | none => if (takeFolded? word (c :: t)).isSome then some ([], c :: t) else none

def containsFolded (word t : Text) : Bool := (splitFolded? word t).isSome

theorem takeFolded?_eq_some {word t taken rest : Text} (h : takeFolded? word t = some (taken, rest)) :
    t = taken ++ rest ∧ fold taken = word := by
  induction word generalizing t taken with
  | nil =>
    simp only [takeFolded?, Option.some.injEq, Prod.mk.injEq] at h
    obtain ⟨rfl, rfl⟩ := h
    simp [fold]
  | cons x word ih =>
    cases t with
    | nil => simp [takeFolded?] at h
    | cons c t =>
      by_cases same : c.toLower = x
      · simp only [takeFolded?, if_pos same, Option.map_eq_some_iff, Prod.exists, Prod.mk.injEq] at h
        obtain ⟨tail, rest, found, rfl, rfl⟩ := h
        obtain ⟨rfl, folded⟩ := ih found
        simp only [fold] at folded
        simp [fold, same, folded]
      · simp [takeFolded?, same] at h

theorem splitFolded?_eq_some {word t gap taken rest : Text}
    (h : splitFolded? word t = some (gap, taken, rest)) : t = gap ++ taken ++ rest ∧ fold taken = word := by
  induction t generalizing gap with
  | nil =>
    simp only [splitFolded?, Option.map_eq_some_iff, Prod.exists, Prod.mk.injEq] at h
    obtain ⟨_, _, found, rfl, rfl, rfl⟩ := h
    simpa using takeFolded?_eq_some found
  | cons c t ih =>
    unfold splitFolded? at h
    split at h
    · next found =>
      simp only [Option.some.injEq, Prod.mk.injEq] at h
      obtain ⟨rfl, rfl, rfl⟩ := h
      simpa using takeFolded?_eq_some found
    · simp only [Option.map_eq_some_iff, Prod.exists, Prod.mk.injEq] at h
      obtain ⟨_, _, _, found, rfl, rfl, rfl⟩ := h
      obtain ⟨rfl, folded⟩ := ih found
      simp [folded]

end TagCalls.Text
