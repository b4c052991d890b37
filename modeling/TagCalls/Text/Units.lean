import TagCalls.Text.Basic

/-!
The 16-bit code units of a text: a character above U+FFFF is a pair of surrogates.
-/
namespace TagCalls.Text

def unitsOf (c : Char) : List UInt16 :=
  if c.toNat < 0x10000 then [c.toNat.toUInt16]
  else [(0xD800 + (c.toNat - 0x10000) / 0x400).toUInt16, (0xDC00 + (c.toNat - 0x10000) % 0x400).toUInt16]

def units (t : Text) : List UInt16 := t.flatMap unitsOf

end TagCalls.Text
