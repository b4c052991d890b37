import TagCalls.Diagnostic.Report
import TagCalls.Run.Plan

/-!
One file of a run: reading it, transpiling what it holds and writing the result.
-/
namespace TagCalls.Run

structure Work where
  blocks : Nat
  diagnostics : List Diagnostic
  warnings : List Warning
  /-- What is to be written, if anything. -/
  output : Option Text
  deriving DecidableEq, Repr

structure Job where
  workspace : Workspace
  session : Session
  scriptType : Text
  bestEffort : Bool
  /-- Whether results are printed, not written. -/
  printed : Bool

def fallbackWarning (span : Option Span) : Diagnostic :=
  ⟨.warning, span, "emitted untransformed with a failure comment".toList, "fallback-emitted".toList⟩

/-- The diagnostic for an error of a script, without a place if that leaves the range of offsets. -/
def errorDiagnostic (error : TranspileError) (base : Nat) : Diagnostic :=
  (Diagnostic.ofError? error base).getD ⟨.error, none, error.message, error.code⟩

def Failure.diagnostic (failure : Failure) : Diagnostic := ⟨.error, none, failure.message, failure.code⟩

def transpileScript (job : Job) (source : Text) : Work :=
  let result := job.session.transpile source
  let output := result.executable? job.bestEffort
  { blocks := 1
    diagnostics :=
      match result.error? with
      | none => []
      | some error =>
        errorDiagnostic error 0 :: if output.isSome then [fallbackWarning none] else []
    warnings := Warning.ofResult result
    output }

def statusDiagnostics (content : Span) : Page.Status → List Diagnostic
  | .loaded => []
  | .skipped => []
  | .loadedFallback => [fallbackWarning (some content)]
  | .loadFailed error => [⟨.error, some content, error.message, "load-failed".toList⟩]

def reportDiagnostics (report : Page.Report) : List Diagnostic :=
  (report.result.error?.map (errorDiagnostic · report.content.start)).toList ++
    statusDiagnostics report.content report.status

/-- A page of which no block was loaded is not written. -/
def transpilePage (job : Job) (source : Text) : Except Page.LocateError Work := do
  let blocks ← Page.locate job.scriptType source
  let (reports, emitter) := Page.process job.session Page.Emitter.load job.bestEffort {} blocks
  return {
    blocks := reports.length
    diagnostics := reports.flatMap reportDiagnostics
    warnings := reports.flatMap Warning.ofReport
    output := if emitter.size = 0 then none else emitter.finish? source }

def transpileSource (job : Job) (kind : SourceKind) (source : Text) : Except Page.LocateError Work :=
  match kind with
  | .script => .ok (transpileScript job source)
  | .page => transpilePage job source

structure FileReport where
  /-- The path as it is shown. -/
  path : Path
  source : Text := []
  blocks : Nat := 0
  diagnostics : List Diagnostic := []
  warnings : List Warning := []
  /-- What is to be printed, if anything. -/
  printed : Option Text := none
  deriving DecidableEq, Repr

def FileReport.fail (report : FileReport) (failure : Failure) : FileReport :=
  { report with
    diagnostics := report.diagnostics ++ [failure.diagnostic]
    warnings := report.warnings ++ [.file failure] }

def emit (job : Job) (tree : Tree) (target : Path) (report : FileReport) (text : Text) : FileReport × Tree :=
  if job.printed then ({ report with printed := some text }, tree)
  else
    match tree.write target text with
    | (none, written) => (report, written)
    | (some error, written) => (report.fail (.write target error), written)

def processFile (job : Job) (tree : Tree) (path : Path) : FileReport × Tree :=
  let unread : FileReport := { path := job.workspace.shown path }
  match tree.read path with
  | .error error => (unread.fail (.read path error), tree)
  | .ok source =>
    let kind := (SourceKind.of? path).getD .script
    match transpileSource job kind source with
    | .error error => (FileReport.fail { unread with source } (.locate path error), tree)
    | .ok work =>
      let report : FileReport :=
        { unread with source, blocks := work.blocks, diagnostics := work.diagnostics, warnings := work.warnings }
      match work.output with
      | none => (report, tree)
      | some text => emit job tree (job.workspace.target kind path) report text

def processFiles (job : Job) : Tree → List Path → List FileReport × Tree
  | tree, [] => ([], tree)
  | tree, path :: paths =>
    let (report, next) := processFile job tree path
    let (reports, last) := processFiles job next paths
    (report :: reports, last)

end TagCalls.Run
