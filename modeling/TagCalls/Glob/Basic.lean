import TagCalls.Text.Basic

/-!
Globs: patterns of whole paths. They match bytes; a star and a question mark match slashes too.
`ends` gives every rest that can stay behind a match, so a path matches if nothing need stay.
-/
namespace TagCalls.Glob

inductive Item where
  | literal (c : Char)
  /-- One byte: `?`. -/
  | any
  /-- Any bytes: `*`. -/
  | run
  /-- Any directories in front: `**/`. -/
  | leading
  /-- Anything below: `/**`. -/
  | trailing
  /-- Any directories between: `/**/`. -/
  | between
  /-- One byte in the ranges, or outside of them. -/
  | oneOf (negated : Bool) (ranges : List (Char × Char))
  /-- One of several: `{a,b}`. -/
  | choice (branches : List (List Item))
  deriving Repr

abbrev Bytes := List UInt8

def utf8 (t : Text) : Bytes := t.flatMap String.utf8EncodeChar

def slash : UInt8 := 47

def suffixes : Bytes → List Bytes
  | [] => [[]]
  | b :: rest => (b :: rest) :: suffixes rest

def behindSlashes : Bytes → List Bytes
  | [] => []
  | b :: rest => if b = slash then rest :: behindSlashes rest else behindSlashes rest

def dropBytes? : Bytes → Bytes → Option Bytes
  | [], path => some path
  | _ :: _, [] => none
  | x :: literal, b :: path => if x = b then dropBytes? literal path else none

/-- The byte ranges of a range of characters: only the last byte of its first character and the
first byte of its last character span a range, and every other byte stands for itself. -/
def byteRanges (low high : Char) : List (UInt8 × UInt8) :=
  let single (bytes : Bytes) := bytes.map fun b => (b, b)
  let lows := String.utf8EncodeChar low
  let highs := String.utf8EncodeChar high
  if low = high then single lows
  else single lows.dropLast ++ (lows.getLastD 0, highs.headD 0) :: single highs.tail

def inRanges (ranges : List (Char × Char)) (b : UInt8) : Bool :=
  (ranges.flatMap fun (low, high) => byteRanges low high).any fun (low, high) => low ≤ b && b ≤ high

mutual
def Item.isVoid : Item → Bool
  | .choice branches => allVoid branches
  | _ => false

def isVoid : List Item → Bool
  | [] => true
  | item :: items => item.isVoid && isVoid items

def allVoid : List (List Item) → Bool
  | [] => true
  | branch :: branches => isVoid branch && allVoid branches
end

mutual
def Item.ends : Item → Bytes → List Bytes
  | .literal c, path => (dropBytes? (String.utf8EncodeChar c) path).toList
  | .any, path => path.tail?.toList
  | .run, path => suffixes path
  | .leading, path => path :: behindSlashes path
  | .trailing, path =>
    match path with
    | b :: _ :: rest => if b = slash then suffixes rest else []
    | _ => []
  | .between, path =>
    match path with
    | b :: rest => if b = slash then rest :: behindSlashes rest else []
    | [] => []
  | .oneOf negated ranges, path =>
    match path with
    | b :: rest => if inRanges ranges b == negated then [] else [rest]
    | [] => []
  | .choice branches, path => if allVoid branches then [path] else choiceEnds branches path

def ends : List Item → Bytes → List Bytes
  | [], path => [path]
  | item :: items, path => (item.ends path).flatMap (ends items)

/-- An empty branch does not count beside others. -/
def choiceEnds : List (List Item) → Bytes → List Bytes
  | [], _ => []
  | branch :: branches, path => (if isVoid branch then [] else ends branch path) ++ choiceEnds branches path
end

/-- A glob `**` alone matches everything. -/
def matchesBytes : List Item → Bytes → Bool
  | [.leading], _ => true
  | items, path => (ends items path).any List.isEmpty

end Glob

structure Glob where
  items : List Glob.Item
  deriving Repr

namespace Glob

def accepts (glob : Glob) (path : Text) : Bool := matchesBytes glob.items (utf8 path)

end TagCalls.Glob
