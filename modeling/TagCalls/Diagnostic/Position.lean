import TagCalls.Text.Basic

/-!
Lines and columns of byte offsets. Lines and columns count from 1, and a column counts bytes.
-/
namespace TagCalls

structure Position where
  line : Nat
  column : Nat
  offset : Nat
  deriving DecidableEq, Repr

structure LineIndex where
  starts : List Nat
  deriving DecidableEq, Repr

namespace LineIndex

def startsFrom (offset : Nat) : Text → List Nat
  | [] => []
  | c :: t =>
    let next := offset + c.utf8Size
    if c = '\n' then next :: startsFrom next t else startsFrom next t

def of (source : Text) : LineIndex := ⟨0 :: startsFrom 0 source⟩

/-- The line that an offset falls in is the last one that begins no later. -/
def position (index : LineIndex) (offset : Nat) : Position :=
  let begun := index.starts.takeWhile (· ≤ offset)
  ⟨begun.length, offset - begun.getLastD 0 + 1, offset⟩

end LineIndex
end TagCalls
