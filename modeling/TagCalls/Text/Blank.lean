import TagCalls.Text.Basic

/-!
White space: the characters with the property White_Space. Zero-width spaces and the byte order
mark do not have it.
-/
namespace TagCalls.Text

/-- The ranges of White_Space, ascending. -/
def blankRanges : List (Nat × Nat) :=
  [(0x09, 0x0D), (0x20, 0x20), (0x85, 0x85), (0xA0, 0xA0), (0x1680, 0x1680), (0x2000, 0x200A),
   (0x2028, 0x2029), (0x202F, 0x202F), (0x205F, 0x205F), (0x3000, 0x3000)]

def isBlank (c : Char) : Bool :=
  blankRanges.any fun (low, high) => low ≤ c.toNat && c.toNat ≤ high

def dropBlanks (t : Text) : Text := t.dropWhile isBlank

theorem length_dropBlanks_le (t : Text) : (dropBlanks t).length ≤ t.length :=
  (List.dropWhile_sublist isBlank).length_le

def dropSomeBlanks? : Text → Option Text
  | [] => none
  | c :: t => if isBlank c then some (dropBlanks t) else none

theorem length_dropSomeBlanks?_le {t rest : Text} (h : dropSomeBlanks? t = some rest) :
    rest.length ≤ t.length := by
  cases t with
  | nil => cases h
  | cons c t =>
    simp only [dropSomeBlanks?] at h
    split at h
    · cases h
      exact Nat.le_trans (length_dropBlanks_le t) (Nat.le_succ _)
    · cases h

def trim (t : Text) : Text := (dropBlanks (dropBlanks t).reverse).reverse

def isAsciiBlank (c : Char) : Bool :=
  c == ' ' || c == '\t' || c == '\n' || c == '\r' || c == '\x0c'

end TagCalls.Text
