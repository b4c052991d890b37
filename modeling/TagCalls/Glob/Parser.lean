import TagCalls.Glob.Basic

/-!
Reading globs. Two stars are special next to slashes only; a backslash takes the next character as
it stands, but not inside a class.
-/
namespace TagCalls.Glob

inductive Error where
  | unclosedClass
  | invalidRange (low high : Char)
  | unclosedGroup
  | unopenedGroup
  | danglingEscape
  deriving DecidableEq, Repr

def Error.message : Error → Text
  | .unclosedClass => "unclosed character class; missing ']'".toList
  | .invalidRange low high =>
    "invalid range; '".toList ++ [low] ++ "' > '".toList ++ [high] ++ "'".toList
  | .unclosedGroup =>
    "unclosed alternate group; missing '\x7d' (maybe escape '\x7b' with '[\x7b]'?)".toList
  | .unopenedGroup =>
    "unopened alternate group; missing '\x7b' (maybe escape '\x7d' with '[\x7d]'?)".toList
  | .danglingEscape => "dangling '\\'".toList

/-- A class that is being read, its last range first. -/
structure Class where
  negated : Bool
  ranges : List (Char × Char) := []
  /-- Whether no character has been read. -/
  fresh : Bool := true
  /-- Whether a hyphen waits for the end of a range. -/
  ranging : Bool := false

namespace Class

def add (c : Char) (cls : Class) : Except Error Class :=
  match cls.ranging, cls.ranges with
  | true, (low, _) :: ranges =>
    if c < low then .error (.invalidRange low c)
    else .ok { cls with ranges := (low, c) :: ranges, fresh := false, ranging := false }
  | _, ranges => .ok { cls with ranges := (c, c) :: ranges, fresh := false, ranging := false }

def hyphen (cls : Class) : Except Error Class :=
  if cls.fresh || cls.ranging then cls.add '-' else .ok { cls with ranging := true }

/-- A hyphen that waits at the end stands for itself. -/
def close (cls : Class) : Item :=
  .oneOf cls.negated (if cls.ranging then ('-', '-') :: cls.ranges else cls.ranges).reverse

end Class

/-- A group that is being read, with the parts before it; what came last is first. -/
structure Group where
  before : List Item
  branches : List (List Item) := []

structure Progress where
  /-- The parts of the innermost branch, the last first. -/
  items : List Item := []
  /-- The groups that are open, the innermost first. -/
  groups : List Group := []
  /-- The character read last. -/
  last : Option Char := none
  /-- The class that is open, if any. -/
  cls : Option Class := none

namespace Progress

def push (item : Item) (progress : Progress) : Progress := { progress with items := item :: progress.items }

def pushRuns (progress : Progress) : Progress := { (progress.push .run).push .run with last := some '*' }

def comma (progress : Progress) : Progress :=
  match progress.groups with
  | [] => progress.push (.literal ',')
  | group :: groups =>
    { progress with
      items := []
      groups := { group with branches := progress.items.reverse :: group.branches } :: groups }

def closeGroup (progress : Progress) : Except Error Progress :=
  match progress.groups with
  | [] => .error .unopenedGroup
  | group :: groups =>
    let branches := (progress.items.reverse :: group.branches).reverse
    .ok { progress with items := .choice branches :: group.before, groups }

def behindSlash (progress : Progress) : Bool :=
  progress.last == some '/' ||
    (!progress.groups.isEmpty && (progress.last == some ',' || progress.last == some '{'))

def directories (item : Item) (progress : Progress) : Progress :=
  match progress.items with
  | .leading :: _ => progress
  | .trailing :: _ => progress
  | items => { progress with items := item :: items.tail }

end Progress

def readClassChar (cls : Class) (c : Char) : Except Error (Item ⊕ Class) :=
  if c = ']' ∧ cls.fresh = false then .ok (.inl cls.close)
  else if c = '-' then cls.hyphen.map .inr
  else (cls.add c).map .inr

def parseFrom (progress : Progress) : Text → Except Error Progress
  | [] => if progress.cls.isSome then .error .unclosedClass else .ok progress
  | c :: t =>
    match progress.cls with
    | some cls =>
      match readClassChar cls c with
      | .error error => .error error
      | .ok (.inl item) => parseFrom { progress.push item with cls := none, last := some c } t
      | .ok (.inr cls) => parseFrom { progress with cls := some cls } t
    | none =>
      let here := { progress with last := some c }
      match c, t with
      | '?', t => parseFrom (here.push .any) t
      | '*', '*' :: '/' :: t =>
        if progress.items.isEmpty then parseFrom { progress.push .leading with last := some '/' } t
        else if progress.behindSlash then parseFrom { progress.directories .between with last := some '/' } t
        else parseFrom { progress.pushRuns.push (.literal '/') with last := some '/' } t
      | '*', '*' :: [] =>
        if progress.items.isEmpty then .ok (progress.push .leading)
        else if progress.behindSlash then .ok (progress.directories .trailing)
        else .ok progress.pushRuns
      | '*', '*' :: d :: t =>
        if !progress.items.isEmpty && progress.behindSlash && !progress.groups.isEmpty && (d == ',' || d == '}') then
          parseFrom { progress.directories .trailing with last := some '*' } (d :: t)
        else parseFrom progress.pushRuns (d :: t)
      | '*', t => parseFrom (here.push .run) t
      | '[', '!' :: t => parseFrom { here with cls := some { negated := true } } t
      | '[', '^' :: t => parseFrom { here with cls := some { negated := true } } t
      | '[', t => parseFrom { here with cls := some { negated := false } } t
      | '{', t => parseFrom { here with items := [], groups := ⟨progress.items, []⟩ :: progress.groups } t
      | '}', t =>
        match here.closeGroup with
        | .error error => .error error
        | .ok next => parseFrom next t
      | ',', t => parseFrom here.comma t
      | '\\', [] => .error .danglingEscape
      | '\\', d :: t => parseFrom { progress.push (.literal d) with last := some d } t
      | c, t => parseFrom (here.push (.literal c)) t

def parse (t : Text) : Except Error Glob := do
  let progress ← parseFrom {} t
  if progress.groups.isEmpty then return ⟨progress.items.reverse⟩ else .error .unclosedGroup

end TagCalls.Glob
