import TagCalls.Page.Emitter
import TagCalls.Transpile.Session

/-!
Transpiling the blocks of a page one by one and handing the results to a loader. A block that fails
never stops the others.
-/
namespace TagCalls.Page

inductive Status where
  | loaded
  /-- It failed, and its text was loaded behind a comment. -/
  | loadedFallback
  /-- It failed, and nothing was loaded. -/
  | skipped
  | loadFailed (error : LoadError)
  deriving DecidableEq, Repr

structure Report where
  id : Nat
  content : Span
  result : Transpiled
  status : Status
  deriving DecidableEq, Repr

def Report.isFailure (report : Report) : Bool := report.status ≠ .loaded

abbrev Loader (σ : Type) := σ → Block → Text → Except LoadError σ

section
variable {σ : Type} (session : Session) (loader : Loader σ) (bestEffort : Bool)

def processBlock (state : σ) (block : Block) : Report × σ :=
  let result := session.transpile block.text
  let report (status : Status) : Report := ⟨block.id, block.content, result, status⟩
  match result.executable? bestEffort with
  | none => (report .skipped, state)
  | some code =>
    match loader state block code with
    | .error error => (report (.loadFailed error), state)
    | .ok next => (report (if result.error?.isSome then .loadedFallback else .loaded), next)

def process : σ → List Block → List Report × σ
  | state, [] => ([], state)
  | state, block :: blocks =>
    let (report, next) := processBlock session loader bestEffort state block
    let (reports, last) := process next blocks
    (report :: reports, last)

end
end TagCalls.Page
