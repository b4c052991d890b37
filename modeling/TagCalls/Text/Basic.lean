/-!
Texts and their byte offsets. A text is a list of characters, and every offset that leaves the
library counts the bytes of its UTF-8 form. An offset inside a character splits nothing.
-/
namespace TagCalls

abbrev Text := List Char

namespace Text

def bytes : Text → Nat
  | [] => 0
  | c :: t => c.utf8Size + bytes t

theorem bytes_append (s t : Text) : bytes (s ++ t) = bytes s + bytes t := by
  induction s with
  | nil => simp [bytes]
  | cons c s ih => simp [bytes, ih, Nat.add_assoc]

theorem length_le_bytes (t : Text) : t.length ≤ bytes t := by
  induction t with
  | nil => simp [bytes]
  | cons c t ih =>
    have one := c.utf8Size_pos
    simp only [bytes, List.length_cons]
    omega

/-- The two parts of a text at a byte offset, if a character begins or the text ends there. -/
def splitAt? : Nat → Text → Option (Text × Text)
  | 0, t => some ([], t)
  | _ + 1, [] => none
  | n + 1, c :: t =>
    if c.utf8Size ≤ n + 1 then
      (splitAt? (n + 1 - c.utf8Size) t).map fun (before, after) => (c :: before, after)
    else none

/-- What begins at a byte offset or at the first character after it. -/
def dropBytes : Nat → Text → Text
  | 0, t => t
  | _ + 1, [] => []
  | n + 1, c :: t => dropBytes (n + 1 - c.utf8Size) t

theorem splitAt?_append (s t : Text) : splitAt? (bytes s) (s ++ t) = some (s, t) := by
  induction s with
  | nil => simp [bytes, splitAt?]
  | cons c s ih =>
    have one := c.utf8Size_pos
    obtain ⟨n, size⟩ : ∃ n, bytes (c :: s) = n + 1 := ⟨c.utf8Size + bytes s - 1, by simp [bytes]; omega⟩
    have rest : n + 1 - c.utf8Size = bytes s := by simp [bytes] at size; omega
    have fits : c.utf8Size ≤ n + 1 := by simp [bytes] at size; omega
    rw [size, List.cons_append, splitAt?, if_pos fits, rest, ih]
    rfl

theorem dropBytes_append (s t : Text) : dropBytes (bytes s) (s ++ t) = t := by
  induction s with
  | nil => simp [bytes, dropBytes]
  | cons c s ih =>
    have one := c.utf8Size_pos
    obtain ⟨n, size⟩ : ∃ n, bytes (c :: s) = n + 1 := ⟨c.utf8Size + bytes s - 1, by simp [bytes]; omega⟩
    have rest : n + 1 - c.utf8Size = bytes s := by simp [bytes] at size; omega
    rw [size, List.cons_append, dropBytes, rest, ih]

def isNameChar (c : Char) : Bool := c.isAlphanum || c == '_'

def takeName? (t : Text) : Option (Text × Text) :=
  match t.takeWhile isNameChar with
  | [] => none
  | name => some (name, t.dropWhile isNameChar)

def dropLiteral? : Text → Text → Option Text
  | [], t => some t
  | _ :: _, [] => none
  | x :: literal, c :: t => if x = c then dropLiteral? literal t else none

theorem dropLiteral?_eq_some {literal t rest : Text} (h : dropLiteral? literal t = some rest) :
    t = literal ++ rest := by
  induction literal generalizing t with
  | nil => simpa [dropLiteral?] using h
  | cons x literal ih =>
    cases t with
    | nil => simp [dropLiteral?] at h
    | cons c t =>
      by_cases same : x = c
      · simp only [dropLiteral?, if_pos same] at h
        simp [same, ih h]
      · simp [dropLiteral?, same] at h

theorem takeName?_eq_some {t name rest : Text} (h : takeName? t = some (name, rest)) :
    t = name ++ rest ∧ name ≠ [] := by
  unfold takeName? at h
  split at h
  · simp at h
  · next none =>
    simp only [Option.some.injEq, Prod.mk.injEq] at h
    obtain ⟨rfl, rfl⟩ := h
    exact ⟨(List.takeWhile_append_dropWhile).symm, none⟩

def splitFirst? (x : Char) : Text → Option (Text × Text)
  | [] => none
  | c :: t =>
    if c = x then some ([], t)
    else (splitFirst? x t).map fun (before, after) => (c :: before, after)

theorem splitFirst?_eq_some {x : Char} {t before after : Text}
    (h : splitFirst? x t = some (before, after)) : t = before ++ x :: after ∧ x ∉ before := by
  induction t generalizing before with
  | nil => simp [splitFirst?] at h
  | cons c t ih =>
    by_cases same : c = x
    · simp only [splitFirst?, if_pos same, Option.some.injEq, Prod.mk.injEq] at h
      obtain ⟨rfl, rfl⟩ := h
      simp [same]
    · simp only [splitFirst?, if_neg same, Option.map_eq_some_iff, Prod.exists, Prod.mk.injEq] at h
      obtain ⟨tail, rest, found, rfl, rfl⟩ := h
      obtain ⟨rfl, absent⟩ := ih found
      exact ⟨by simp, by simp [Ne.symm same, absent]⟩

end Text
end TagCalls
