import TagCalls.Page.Locate

/-!
Putting code back into a page. Each loaded block's element is marked as transformed, and its code
goes into a plain script element before the last `</body>`, or at the end of a page without one.
-/
namespace TagCalls.Page

inductive LoadError where
  | unembeddable (id : Nat) (reason : Text)
  | alreadyLoaded (id : Nat)
  deriving DecidableEq, Repr

def LoadError.message : LoadError → Text
  | .unembeddable id reason => "block ".toList ++ Block.label id ++ " cannot be embedded: ".toList ++ reason
  | .alreadyLoaded id => "block ".toList ++ Block.label id ++ " was already loaded".toList

structure Loaded where
  block : Block
  code : Text
  deriving DecidableEq, Repr

structure Emitter where
  loaded : List Loaded := []
  deriving DecidableEq, Repr

namespace Emitter

def size (emitter : Emitter) : Nat := emitter.loaded.length

/-- Accepts code that does not end its script element, once for each block. -/
def load (emitter : Emitter) (block : Block) (code : Text) : Except LoadError Emitter :=
  if Text.containsFolded endWord code then
    .error (.unembeddable block.id "code contains `</script`".toList)
  else if emitter.loaded.any (·.block.id == block.id) then .error (.alreadyLoaded block.id)
  else .ok ⟨emitter.loaded ++ [⟨block, code⟩]⟩

def marker : Text := ' ' :: (transformedName ++ "=\"true\"".toList)

/-- Inserts the marker at ascending offsets into a text that begins at offset `from`, unless one of
them is no boundary of it. -/
def mark? : Nat → List Nat → Text → Option Text
  | _, [], t => some t
  | origin, offset :: offsets, t => do
    let (before, after) ← Text.splitAt? (offset - origin) t
    return before ++ marker ++ (← mark? offset offsets after)

def script (code : Text) : Text := "<script>\n".toList ++ code ++ "\n</script>\n".toList

def missingBreak (t : Text) : Text :=
  match t.getLast? with
  | none => []
  | some c => if c = '\n' then [] else ['\n']

def insertScripts (scripts page : Text) : Text :=
  match Text.splitLastFolded? "</body>".toList page with
  | some (before, after) => before ++ scripts ++ after
  | none => page ++ missingBreak page ++ scripts

def inPageOrder (emitter : Emitter) : List Loaded :=
  emitter.loaded.mergeSort fun a b => a.block.element.start ≤ b.block.element.start

/-- The page with all loaded code in it. It fails if a block is not of this page, so that its mark
would fall behind the end or into a character. -/
def finish? (emitter : Emitter) (page : Text) : Option Text := do
  let ordered := emitter.inPageOrder
  let marked ← mark? 0 (ordered.map (·.block.element.start + elementWord.length)) page
  return insertScripts (ordered.flatMap (script ·.code)) marked

end Emitter
end TagCalls.Page
