import TagCalls.Text.Units

/-!
Short names for contents: the hash of a text is the value of its 16-bit units as digits of base 31,
in 32-bit arithmetic, and a name is its absolute value in base 36.
-/
namespace TagCalls.Style

def contentHash (t : Text) : Int32 :=
  t.units.foldl (fun hash unit => hash * 31 + Int32.ofNat unit.toNat) 0

def digit36 (n : Nat) : Char := if n < 10 then Char.ofNat (48 + n) else Char.ofNat (87 + n)

def digits36 (n : Nat) : Text :=
  if n < 36 then [digit36 n] else digits36 (n / 36) ++ [digit36 (n % 36)]

def base36 (hash : Int32) : Text := digits36 hash.toInt.natAbs

def className (t : Text) : Text := 'c' :: base36 (contentHash t)

end TagCalls.Style
