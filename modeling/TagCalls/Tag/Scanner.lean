import TagCalls.Tag.Pattern

/-!
The scan for tags that respects attribute values: inside quotes or braces, `>` does not end a tag.
A `<name` that never reaches its `>` is plain text, and one whose value never ends is an error.
Each step of the scan gives one tag, with the text before it.
-/
namespace TagCalls.Tag

inductive Inside where
  | between
  | quoted (quote : Char)
  /-- Inside braces that are open `deeper + 1` times. -/
  | braced (deeper : Nat)
  deriving DecidableEq, Repr

def Inside.step : Inside → Char → Inside
  | .between, c =>
    if Attribute.isQuote c then .quoted c else if c = '{' then .braced 0 else .between
  | .quoted quote, c => if c = quote then .between else .quoted quote
  | .braced deeper, c =>
    if c = '{' then .braced (deeper + 1)
    else if c = '}' then
      match deeper with
      | 0 => .between
      | deeper + 1 => .braced deeper
    else .braced deeper

inductive Body where
  /-- Up to a `>` between values. -/
  | closed (raw rest : Text)
  /-- To the end of the text, between values. -/
  | unended
  /-- To the end of the text, inside a value. -/
  | stuck
  deriving DecidableEq, Repr

def Body.push (c : Char) : Body → Body
  | .closed raw rest => .closed (c :: raw) rest
  | .unended => .unended
  | .stuck => .stuck

def body : Inside → Text → Body
  | .between, [] => .unended
  | _, [] => .stuck
  | state, c :: t =>
    if state = .between ∧ c = '>' then .closed [] t else (body (state.step c) t).push c

inductive Reading where
  | tagged (tag : Tag) (rest : Text)
  | stuck (name : Text)
  | plain
  deriving DecidableEq, Repr

/-- The tag whose inside is `raw`: a slash at the end makes it self-closing. -/
def ofRaw (name raw : Text) : Tag :=
  match dropSlash? raw with
  | some inner => ⟨.selfClosing, name, inner⟩
  | none => ⟨.opening, name, raw⟩

def readNamed (t : Text) : Reading :=
  match Text.takeName? t with
  | none => .plain
  | some (name, behind) =>
    match body .between behind with
    | .closed raw rest => .tagged (ofRaw name raw) rest
    | .unended => .plain
    | .stuck => .stuck name

def read : Text → Reading
  | [] => .plain
  | c :: t =>
    if c = '<' then
      match readClosing? (c :: t) with
      | some (tag, rest) => .tagged tag rest
      | none => readNamed t
    else .plain

inductive Found where
  | tagged (gap : Text) (tag : Tag) (rest : Text)
  | stuck (gap name : Text)
  | none
  deriving DecidableEq, Repr

def Found.push (c : Char) : Found → Found
  | .tagged gap tag rest => .tagged (c :: gap) tag rest
  | .stuck gap name => .stuck (c :: gap) name
  | .none => .none

def find : Text → Found
  | [] => .none
  | c :: t =>
    match read (c :: t) with
    | .tagged tag rest => .tagged [] tag rest
    | .stuck name => .stuck [] name
    | .plain => (find t).push c

/-- A tag with a value that never ends, from its `<` to the end of the source. -/
structure Unterminated where
  name : Text
  span : Span
  deriving DecidableEq, Repr

structure Scanner where
  source : Text
  position : Nat := 0
  finished : Bool := false
  deriving DecidableEq, Repr

namespace Scanner

inductive Step where
  /-- A tag, the text before it and the offset at which the scan goes on. -/
  | token (gap : Text) (token : Token) (position : Nat)
  | failure (gap : Text) (failure : Unterminated)
  | done (tail : Text)
  deriving DecidableEq, Repr

def Step.item? : Step → Option (Except Unterminated Token)
  | .token _ found _ => some (.ok found)
  | .failure _ broken => some (.error broken)
  | .done _ => none

/-- The next tag. Behind a closing tag the scan goes on at the end of its span, behind any other at
the true end of the tag; the two differ only past the greatest offset. -/
def next (scanner : Scanner) : Step :=
  if scanner.finished then .done []
  else
    let ahead := scanner.source.dropBytes scanner.position
    let base := scanner.source.bytes - ahead.bytes
    match find ahead with
    | .tagged gap tag rest =>
      let stop := scanner.source.bytes - rest.bytes
      let span := Span.of (base + gap.bytes) stop
      .token gap ⟨tag, span⟩ (if tag.kind = .closing then span.stop else stop)
    | .stuck gap name => .failure gap ⟨name, .of (base + gap.bytes) scanner.source.bytes⟩
    | .none => .done ahead

/-- The scanner behind a step. A failure or the end of the source finishes it. -/
def after (scanner : Scanner) : Step → Scanner
  | .token _ _ position => { scanner with position }
  | .failure .. | .done _ => { scanner with position := scanner.source.bytes, finished := true }

end Scanner

/-- The tags of a source, each with the text before it, and the text behind the last one unless
the scan failed. -/
structure Scan where
  pieces : List (Text × Token)
  ending : Except Unterminated Text

namespace Scan

def tokens (scan : Scan) : List Token := scan.pieces.map (·.2)

def push (gap : Text) (token : Token) (scan : Scan) : Scan :=
  { scan with pieces := (gap, token) :: scan.pieces }

end Scan

/-- All steps of a scan. It goes on as long as it moves forward. -/
def Scanner.run (scanner : Scanner) : Scan :=
  match scanner.next with
  | .token gap token position =>
    if scanner.position < position ∧ position ≤ scanner.source.bytes then
      (run (scanner.after (.token gap token position))).push gap token
    else ⟨[(gap, token)], .ok []⟩
  | .failure _ failure => ⟨[], .error failure⟩
  | .done tail => ⟨[], .ok tail⟩
termination_by scanner.source.bytes - scanner.position
decreasing_by
  simp only [Scanner.after]
  omega

def scan (source : Text) : Scan := Scanner.run { source }

end TagCalls.Tag
