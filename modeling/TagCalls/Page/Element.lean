import TagCalls.Text.Blank
import TagCalls.Text.Fold

/-!
Script elements of a page. A page is searched from the left for `<script`; each element runs from
there through its start tag, whose quoted values may hold any character, and through its content to
the `>` of its end tag. Letter case does not matter.
-/
namespace TagCalls.Page

inductive LocateError where
  | unterminatedStartTag (offset : Nat)
  | missingEndTag (offset : Nat)
  deriving DecidableEq, Repr

/-- A script element in its written parts, and the byte offset at which it begins. -/
structure Element where
  start : Nat
  /-- The word `<script` as it is written. -/
  word : Text
  /-- The start tag between that word and its `>`. -/
  inner : Text
  content : Text
  /-- The end tag, or what the page has of it. -/
  closing : Text
  deriving DecidableEq, Repr

namespace Element

def opening (element : Element) : Text := element.word ++ element.inner ++ ['>']

def text (element : Element) : Text := element.opening ++ element.content ++ element.closing

def contentStart (element : Element) : Nat := element.start + element.opening.bytes

def contentStop (element : Element) : Nat := element.contentStart + element.content.bytes

def stop (element : Element) : Nat := element.contentStop + element.closing.bytes

end Element

def nameEnds : Text → Bool
  | [] => true
  | c :: _ => Text.isAsciiBlank c || c == '>' || c == '/'

/-- The parts of a text around the first `>` that stands in no quotes; `quote` is the one open. -/
def splitStartTag? : Option Char → Text → Option (Text × Text)
  | _, [] => none
  | some quote, c :: t =>
    (splitStartTag? (if c = quote then none else some quote) t).map fun (inner, rest) => (c :: inner, rest)
  | none, c :: t =>
    if c = '>' then some ([], t)
    else
      (splitStartTag? (if c = '"' ∨ c = '\'' then some c else none) t).map fun (inner, rest) =>
        (c :: inner, rest)

def splitEndTag (t : Text) : Text × Text :=
  match Text.splitFirst? '>' t with
  | some (inner, rest) => (inner ++ ['>'], rest)
  | none => (t, [])

theorem splitStartTag?_eq_some {quote : Option Char} {t inner rest : Text}
    (h : splitStartTag? quote t = some (inner, rest)) : t = inner ++ '>' :: rest := by
  induction t generalizing quote inner with
  | nil => cases quote <;> simp [splitStartTag?] at h
  | cons c t ih =>
    cases quote with
    | some quote =>
      simp only [splitStartTag?, Option.map_eq_some_iff, Prod.exists, Prod.mk.injEq] at h
      obtain ⟨tail, _, found, rfl, rfl⟩ := h
      simp [ih found]
    | none =>
      by_cases closes : c = '>'
      · simp only [splitStartTag?, if_pos closes, Option.some.injEq, Prod.mk.injEq] at h
        obtain ⟨rfl, rfl⟩ := h
        simp [closes]
      · simp only [splitStartTag?, if_neg closes, Option.map_eq_some_iff, Prod.exists, Prod.mk.injEq] at h
        obtain ⟨tail, _, found, rfl, rfl⟩ := h
        simp [ih found]

theorem splitEndTag_eq (t : Text) : (splitEndTag t).1 ++ (splitEndTag t).2 = t := by
  unfold splitEndTag
  split
  · next found => simp [(Text.splitFirst?_eq_some found).1]
  · simp

theorem length_lt_of_splitFolded? {word t gap taken rest : Text} (nonempty : 0 < word.length)
    (h : Text.splitFolded? word t = some (gap, taken, rest)) : rest.length < t.length := by
  obtain ⟨split, folded⟩ := Text.splitFolded?_eq_some h
  have size := congrArg List.length folded
  simp [Text.fold] at size
  simp [split]
  omega

def elementWord : Text := "<script".toList

def endWord : Text := "</script".toList

def elementsFrom (offset : Nat) (t : Text) : Except LocateError (List Element) :=
  match _split : Text.splitFolded? elementWord t with
  | none => .ok []
  | some (gap, word, behind) =>
    let start := offset + gap.bytes
    if nameEnds behind then
      match _opened : splitStartTag? none behind with
      | none => .error (.unterminatedStartTag start)
      | some (inner, inside) =>
        match _closed : Text.splitFolded? endWord inside with
        | none => .error (.missingEndTag start)
        | some (content, endName, after) =>
          let element : Element := ⟨start, word, inner, content, endName ++ (splitEndTag after).1⟩
          (elementsFrom element.stop (splitEndTag after).2).map (element :: ·)
    else elementsFrom (start + word.bytes) behind
termination_by t.length
decreasing_by
  · have h1 := length_lt_of_splitFolded? (by decide) _split
    have h2 := congrArg List.length (splitStartTag?_eq_some _opened)
    have h3 := length_lt_of_splitFolded? (by decide) _closed
    have h4 := congrArg List.length (splitEndTag_eq after)
    simp at h2 h4
    omega
  · exact length_lt_of_splitFolded? (by decide) _split

def elements (page : Text) : Except LocateError (List Element) := elementsFrom 0 page

def LocateError.message : LocateError → Text
  | .unterminatedStartTag offset =>
    "unterminated <script> start tag at byte ".toList ++ Nat.toDigits 10 offset
  | .missingEndTag offset =>
    "missing </script> for the element at byte ".toList ++ Nat.toDigits 10 offset

end TagCalls.Page
