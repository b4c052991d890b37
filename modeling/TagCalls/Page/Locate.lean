import TagCalls.Page.Element
import TagCalls.Span

/-!
The blocks of a page: the contents of script elements of one type. An element that carries the mark
of one already transformed is left alone.
-/
namespace TagCalls.Page

abbrev StartAttribute := Text × Option Text

def isAttributeNameChar (c : Char) : Bool := !Text.isBlank c && c != '=' && c != '/'

/-- A value and what follows it: up to the same quote, or else up to a blank. -/
def readValue : Text → Text × Text
  | [] => ([], [])
  | c :: t =>
    if c = '"' ∨ c = '\'' then (t.takeWhile (· != c), (t.dropWhile (· != c)).tail)
    else ((c :: t).takeWhile (!Text.isBlank ·), (c :: t).dropWhile (!Text.isBlank ·))

theorem length_readValue_le (t : Text) : (readValue t).2.length ≤ t.length := by
  cases t with
  | nil => simp [readValue]
  | cons c t =>
    have h1 := (List.dropWhile_sublist (· != c) (l := t)).length_le
    have h2 := (List.dropWhile_sublist (!Text.isBlank ·) (l := c :: t)).length_le
    simp only [readValue]
    split
    · simp only [List.length_tail, List.length_cons]
      omega
    · simpa using h2

def startAttributesFrom (t : Text) : List StartAttribute :=
  let named := t.dropWhile fun c => Text.isBlank c || c == '/'
  let name := named.takeWhile isAttributeNameChar
  if _some : name = [] then []
  else
    match _sign : Text.dropBlanks (named.dropWhile isAttributeNameChar) with
    | '=' :: behind =>
      let value := readValue (Text.dropBlanks behind)
      (name, some value.1) :: startAttributesFrom value.2
    | behind => (name, none) :: startAttributesFrom behind
termination_by t.length
decreasing_by
  all_goals
    have h1 := (List.dropWhile_sublist (fun c => Text.isBlank c || c == '/') (l := t)).length_le
    have h2 := congrArg List.length (List.takeWhile_append_dropWhile (p := isAttributeNameChar) (l := named))
    have h3 := List.length_pos_iff.mpr _some
    have h4 := (List.dropWhile_sublist Text.isBlank (l := named.dropWhile isAttributeNameChar)).length_le
    simp only [Text.dropBlanks] at _sign
    rw [_sign] at h4
    simp only [List.length_append, name, named] at h1 h2 h3 h4 ⊢
  · have h5 := length_readValue_le (Text.dropBlanks behind)
    have h6 := (List.dropWhile_sublist Text.isBlank (l := behind)).length_le
    simp only [List.length_cons] at h4
    simp only [Text.dropBlanks] at h5 h6 ⊢
    omega
  · omega

/-- The attributes of a start tag. Slashes at its end do not count. -/
def startAttributes (inner : Text) : List StartAttribute :=
  startAttributesFrom (inner.reverse.dropWhile (· == '/')).reverse

def transformedName : Text := "data-transformed".toList

def defaultType : Text := "text/jsx".toList

/-- Whether the value of the last `type` is the type asked for. -/
def hasType (type : Text) (items : List StartAttribute) : Bool :=
  match (items.filter fun item => Text.sameFolded item.1 "type".toList).getLast? with
  | some (_, some value) => Text.sameFolded (Text.trim value) type
  | _ => false

def isWanted (type : Text) (element : Element) : Bool :=
  let items := startAttributes element.inner
  !items.any (fun item => Text.sameFolded item.1 transformedName) && hasType type items

structure Block where
  id : Nat
  text : Text
  content : Span
  element : Span
  deriving DecidableEq, Repr

def Block.ofElement (id : Nat) (element : Element) : Block where
  id
  text := element.content
  content := .of element.contentStart element.contentStop
  element := .of element.start element.stop

def blocksFrom : Nat → List Element → List Block
  | _, [] => []
  | id, element :: rest => .ofElement id element :: blocksFrom (id + 1) rest

def locate (type page : Text) : Except LocateError (List Block) :=
  (elements page).map fun found => blocksFrom 0 (found.filter (isWanted type))

def Block.label (id : Nat) : Text := '#' :: Nat.toDigits 10 id

end TagCalls.Page
