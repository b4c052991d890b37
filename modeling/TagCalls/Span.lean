import TagCalls.Text.Basic

/-!
Ranges of byte offsets. An offset is stored in 32 bits: one that needs more is the greatest offset.
-/
namespace TagCalls

/-- From `start` up to, not including, `stop`. -/
structure Span where
  start : Nat
  stop : Nat
  deriving DecidableEq, Repr

namespace Span

def maxOffset : Nat := 4294967295

def clamp (offset : Nat) : Nat := min offset maxOffset

theorem clamp_of_le {offset : Nat} (small : offset ≤ maxOffset) : clamp offset = offset :=
  Nat.min_eq_left small

def of (start stop : Nat) : Span := ⟨clamp start, clamp stop⟩

def shift? (base : Nat) (span : Span) : Option Span :=
  if base + span.start ≤ maxOffset ∧ base + span.stop ≤ maxOffset then
    some ⟨base + span.start, base + span.stop⟩
  else none

end Span

/-- The part of the text under a span, if both ends fall between characters. -/
def Text.slice? (text : Text) (span : Span) : Option Text := do
  let (head, _) ← text.splitAt? span.stop
  let (_, part) ← Text.splitAt? span.start head
  return part

end TagCalls
