import TagCalls.Proofs.Page.Process
import TagCalls.Proofs.Workspace.Tree
import TagCalls.Run.Outcome

/-!
One file of a run. It is read and transpiled, and later its result is written, perhaps to a tree that has changed
in between. A file is in trouble if it cannot be read, searched or written, or if a script in it fails or is
refused, and its report has an error exactly if it is in trouble.
-/
namespace TagCalls.Run

/-- A path that the command line names may be of no kind; it counts as a script. -/
def kindOf (path : Path) : SourceKind := (SourceKind.of? path).getD .script

def Job.output (job : Job) (path : Path) : Path := job.workspace.target (kindOf path) path

def Job.process (job : Job) (blocks : List Page.Block) : List Page.Report × Page.Emitter :=
  Page.process job.session Page.Emitter.load job.bestEffort {} blocks

/-- The text that is due for a file as the tree has it: for a script if it is transpiled or best effort is
asked for, for a page if at least one of its blocks is loaded. -/
inductive Due (job : Job) (tree : Tree) (path : Path) : Text → Prop
  | script {source text : Text} : tree.read path = .ok source → kindOf path = .script →
      (job.session.transpile source).error? = none ∨ job.bestEffort = true →
      (job.session.transpile source).executable? job.bestEffort = some text → Due job tree path text
  | page {source text : Text} {blocks : List Page.Block} : tree.read path = .ok source →
      kindOf path = .page → Page.locate job.scriptType source = .ok blocks →
      (∃ report ∈ (job.process blocks).1, report.isLoaded = true) →
      (job.process blocks).2.finish? source = some text → Due job tree path text

/-- What can go wrong with a file that is read in one tree and whose result is written to another. -/
inductive Trouble (job : Job) (found left : Tree) (path : Path) : Prop
  | unread {error : FileError} : found.read path = .error error → Trouble job found left path
  | unsearched {source : Text} {error : Page.LocateError} : found.read path = .ok source →
      kindOf path = .page → Page.locate job.scriptType source = .error error → Trouble job found left path
  | script {source text : Text} {error : TranspileError} : found.read path = .ok source →
      kindOf path = .script → job.session.transpile source = .failed error text → Trouble job found left path
  | block {source text : Text} {blocks : List Page.Block} {block : Page.Block} {error : TranspileError} :
      found.read path = .ok source → kindOf path = .page → Page.locate job.scriptType source = .ok blocks →
      block ∈ blocks → job.session.transpile block.text = .failed error text → Trouble job found left path
  | refused {source : Text} {blocks : List Page.Block} {report : Page.Report} {error : Page.LoadError} :
      found.read path = .ok source → kindOf path = .page → Page.locate job.scriptType source = .ok blocks →
      report ∈ (job.process blocks).1 → report.status = .loadFailed error → Trouble job found left path
  | unwritten {text : Text} {error : FileError} : Due job found path text → job.printed = false →
      (left.write (job.output path) text).1 = some error → Trouble job found left path

/-! ### Diagnostics of severity error -/

def HasError (diagnostics : List Diagnostic) : Prop := ∃ diagnostic ∈ diagnostics, diagnostic.severity = .error

theorem hasError_append {first second : List Diagnostic} :
    HasError (first ++ second) ↔ HasError first ∨ HasError second := by
  simp only [HasError, List.mem_append, or_and_right, exists_or]

theorem severity_errorDiagnostic (error : TranspileError) (base : Nat) :
    (errorDiagnostic error base).severity = .error := by
  rw [errorDiagnostic]
  cases built : Diagnostic.ofError? error base with
  | none => rfl
  | some diagnostic =>
    unfold Diagnostic.ofError? at built
    split at built
    · cases built
      rfl
    · cases built
      rfl
    · obtain ⟨_, _, rfl⟩ := Option.map_eq_some_iff.mp built
      rfl

theorem hasError_reportDiagnostics (report : Page.Report) :
    HasError (reportDiagnostics report) ↔
      (∃ error text, report.result = .failed error text) ∨ ∃ error, report.status = .loadFailed error := by
  have first : HasError ((report.result.error?.map (errorDiagnostic · report.content.start)).toList) ↔
      ∃ error text, report.result = .failed error text := by
    cases report.result with
    | done output pragma => simp [HasError, Transpiled.error?]
    | failed error text => simp [HasError, Transpiled.error?, severity_errorDiagnostic]
  have second : HasError (statusDiagnostics report.content report.status) ↔
      ∃ error, report.status = .loadFailed error := by
    cases report.status <;> simp [HasError, statusDiagnostics, fallbackWarning]
  rw [reportDiagnostics, hasError_append, first, second]

/-! ### What transpiling gives -/

section
variable {job : Job} {tree left : Tree} {path : Path} {source : Text} {work : Work}

theorem hasError_transpileScript (job : Job) (source : Text) :
    HasError (transpileScript job source).diagnostics ↔
      ∃ error text, job.session.transpile source = .failed error text := by
  rw [transpileScript]
  cases job.session.transpile source with
  | done output pragma => simp [HasError, Transpiled.error?]
  | failed error text => simp [HasError, Transpiled.error?, severity_errorDiagnostic]

theorem transpilePage_eq (job : Job) (source : Text) :
    transpilePage job source = (Page.locate job.scriptType source).map fun blocks =>
      { blocks := (job.process blocks).1.length
        diagnostics := (job.process blocks).1.flatMap reportDiagnostics
        warnings := (job.process blocks).1.flatMap Warning.ofReport
        output := if (job.process blocks).2.size = 0 then none else (job.process blocks).2.finish? source } := by
  rw [transpilePage]
  cases Page.locate job.scriptType source with
  | error error => rfl
  | ok blocks => rfl

theorem hasError_process (blocks : List Page.Block) :
    HasError ((job.process blocks).1.flatMap reportDiagnostics) ↔
      (∃ block ∈ blocks, ∃ error text, job.session.transpile block.text = .failed error text) ∨
        ∃ report ∈ (job.process blocks).1, ∃ error, report.status = .loadFailed error := by
  have results := Page.results_process job.session Page.Emitter.load job.bestEffort {} blocks
  have each : HasError ((job.process blocks).1.flatMap reportDiagnostics) ↔
      ∃ report ∈ (job.process blocks).1, HasError (reportDiagnostics report) := by
    constructor
    · intro found
      obtain ⟨diagnostic, member, severe⟩ := found
      obtain ⟨report, inside, here⟩ := List.mem_flatMap.mp member
      exact ⟨report, inside, diagnostic, here, severe⟩
    · intro found
      obtain ⟨report, inside, diagnostic, here, severe⟩ := found
      exact ⟨diagnostic, List.mem_flatMap.mpr ⟨report, inside, here⟩, severe⟩
  have failures : (∃ report ∈ (job.process blocks).1, ∃ error text, report.result = .failed error text) ↔
      ∃ block ∈ blocks, ∃ error text, job.session.transpile block.text = .failed error text := by
    have left : (∃ result ∈ (job.process blocks).1.map (·.result), ∃ error text, result = .failed error text) ↔
        ∃ report ∈ (job.process blocks).1, ∃ error text, report.result = .failed error text := by
      simp only [List.mem_map, exists_exists_and_eq_and]
    have right : (∃ result ∈ blocks.map fun block => job.session.transpile block.text,
          ∃ error text, result = .failed error text) ↔
        ∃ block ∈ blocks, ∃ error text, job.session.transpile block.text = .failed error text := by
      simp only [List.mem_map, exists_exists_and_eq_and]
    rw [← left, ← right]
    exact iff_of_eq (congrArg (fun results : List Transpiled =>
      ∃ result ∈ results, ∃ error text, result = .failed error text) results)
  simp only [each, hasError_reportDiagnostics, ← failures, and_or_left, exists_or]

theorem due_of_work (readable : tree.read path = .ok source)
    (worked : transpileSource job (kindOf path) source = .ok work) (text : Text) :
    work.output = some text ↔ Due job tree path text := by
  cases kind : kindOf path with
  | script =>
    rw [kind] at worked
    cases worked
    constructor
    · intro due
      refine .script readable kind ?_ due
      have runnable : (job.session.transpile source).executable? job.bestEffort = some text := due
      rcases Page.executable?_eq_some_iff.mp runnable with ⟨pragma, done⟩ | ⟨on, _⟩
      · rw [done]
        exact .inl rfl
      · exact .inr on
    · intro due
      cases due with
      | script readable' _ _ due =>
        cases readable.symm.trans readable'
        exact due
      | page _ kind' => cases kind.symm.trans kind'
  | page =>
    rw [kind, transpileSource, transpilePage_eq] at worked
    cases located : Page.locate job.scriptType source with
    | error error =>
      rw [located] at worked
      cases worked
    | ok blocks =>
      rw [located] at worked
      cases worked
      have size := Page.size_process job.session job.bestEffort {} blocks
      have loaded : (job.process blocks).2.size ≠ 0 ↔
          ∃ report ∈ (job.process blocks).1, report.isLoaded = true := by
        rw [← List.countP_pos_iff, Job.process, size]
        simp [Page.Emitter.size, Nat.pos_iff_ne_zero]
      dsimp only
      constructor
      · intro due
        split at due
        · cases due
        · next some_ => exact .page readable kind located (loaded.mp some_) due
      · intro due
        cases due with
        | script _ kind' => cases kind.symm.trans kind'
        | page readable' _ located' reported due =>
          cases readable.symm.trans readable'
          cases located.symm.trans located'
          rw [if_neg (loaded.mpr reported)]
          exact due

theorem hasError_work (readable : tree.read path = .ok source)
    (worked : transpileSource job (kindOf path) source = .ok work) (failing : HasError work.diagnostics) :
    Trouble job tree left path := by
  cases kind : kindOf path with
  | script =>
    rw [kind] at worked
    cases worked
    obtain ⟨error, text, failed⟩ := (hasError_transpileScript job source).mp failing
    exact .script readable kind failed
  | page =>
    rw [kind, transpileSource, transpilePage_eq] at worked
    cases located : Page.locate job.scriptType source with
    | error error =>
      rw [located] at worked
      cases worked
    | ok blocks =>
      rw [located] at worked
      cases worked
      rcases (hasError_process blocks).mp failing with
        ⟨block, member, error, text, failed⟩ | ⟨report, member, error, refused⟩
      · exact .block readable kind located member failed
      · exact .refused readable kind located member refused

theorem trouble_of_unsearched {error : Page.LocateError} (readable : tree.read path = .ok source)
    (worked : transpileSource job (kindOf path) source = .error error) : Trouble job tree left path := by
  cases kind : kindOf path with
  | script =>
    rw [kind] at worked
    cases worked
  | page =>
    rw [kind, transpileSource, transpilePage_eq] at worked
    cases located : Page.locate job.scriptType source with
    | error error => exact .unsearched readable kind located
    | ok blocks =>
      rw [located] at worked
      cases worked

theorem trouble_of_work (readable : tree.read path = .ok source)
    (worked : transpileSource job (kindOf path) source = .ok work) :
    Trouble job tree left path ↔ HasError work.diagnostics ∨
      job.printed = false ∧ ∃ text, work.output = some text ∧
        ∃ error, (left.write (job.output path) text).1 = some error := by
  constructor
  · intro trouble
    cases trouble with
    | unread unread => cases readable.symm.trans unread
    | unsearched readable' kind unsearched =>
      cases readable.symm.trans readable'
      rw [kind, transpileSource, transpilePage_eq, unsearched] at worked
      cases worked
    | script readable' kind failed =>
      cases readable.symm.trans readable'
      rw [kind] at worked
      cases worked
      exact .inl ((hasError_transpileScript job source).mpr ⟨_, _, failed⟩)
    | block readable' kind located member failed =>
      cases readable.symm.trans readable'
      rw [kind, transpileSource, transpilePage_eq, located] at worked
      cases worked
      exact .inl ((hasError_process _).mpr (.inl ⟨_, member, _, _, failed⟩))
    | refused readable' kind located member refused =>
      cases readable.symm.trans readable'
      rw [kind, transpileSource, transpilePage_eq, located] at worked
      cases worked
      exact .inl ((hasError_process _).mpr (.inr ⟨_, member, _, refused⟩))
    | unwritten due kept unwritten =>
      exact .inr ⟨kept, _, (due_of_work readable worked _).mpr due, _, unwritten⟩
  · intro wrong
    rcases wrong with failing | ⟨kept, text, output, error, unwritten⟩
    · exact hasError_work readable worked failing
    · exact .unwritten ((due_of_work readable worked text).mp output) kept unwritten

/-! ### Reading a file -/

/-- What is known of a file once it has been read: its report so far, and the text that is to be written. -/
def Job.read (job : Job) (tree : Tree) (path : Path) : FileReport × Option Text :=
  let unread : FileReport := { path := job.workspace.shown path }
  match tree.read path with
  | .error error => (unread.fail (.read path error), none)
  | .ok source =>
    match transpileSource job (kindOf path) source with
    | .error error => (FileReport.fail { unread with source } (.locate path error), none)
    | .ok work =>
      ({ unread with source, blocks := work.blocks, diagnostics := work.diagnostics, warnings := work.warnings },
        work.output)

def Job.result? (job : Job) (tree : Tree) (path : Path) : Option Text := (job.read tree path).2

theorem processFile_eq (job : Job) (tree : Tree) (path : Path) :
    processFile job tree path =
      match job.read tree path with
      | (report, none) => (report, tree)
      | (report, some text) => emit job tree (job.output path) report text := by
  rw [processFile, Job.read]
  cases tree.read path with
  | error error => rfl
  | ok source =>
    dsimp only [kindOf]
    cases transpileSource job ((SourceKind.of? path).getD .script) source with
    | error error => rfl
    | ok work =>
      dsimp only
      cases work.output <;> rfl

theorem hasError_fail (report : FileReport) (failure : Failure) : HasError (report.fail failure).diagnostics :=
  ⟨failure.diagnostic, List.mem_append_right _ (List.mem_singleton_self _), rfl⟩

theorem result?_eq_some_iff (job : Job) (tree : Tree) (path : Path) (text : Text) :
    job.result? tree path = some text ↔ Due job tree path text := by
  rw [Job.result?, Job.read]
  cases readable : tree.read path with
  | error error =>
    refine iff_of_false nofun ?_
    intro due
    cases due with
    | script readable' => cases readable.symm.trans readable'
    | page readable' => cases readable.symm.trans readable'
  | ok source =>
    dsimp only
    cases worked : transpileSource job (kindOf path) source with
    | ok work => exact due_of_work readable worked text
    | error error =>
      refine iff_of_false nofun ?_
      intro due
      cases due with
      | script readable' kind =>
        rw [kind] at worked
        cases worked
      | page readable' kind located =>
        cases readable.symm.trans readable'
        rw [kind, transpileSource, transpilePage_eq, located] at worked
        cases worked

theorem trouble_iff (job : Job) (found left : Tree) (path : Path) :
    Trouble job found left path ↔ HasError (job.read found path).1.diagnostics ∨
      job.printed = false ∧ ∃ text, job.result? found path = some text ∧
        ∃ error, (left.write (job.output path) text).1 = some error := by
  rw [Job.result?, Job.read]
  cases readable : found.read path with
  | error error => exact iff_of_true (.unread readable) (.inl (hasError_fail _ _))
  | ok source =>
    dsimp only
    cases worked : transpileSource job (kindOf path) source with
    | error error => exact iff_of_true (trouble_of_unsearched readable worked) (.inl (hasError_fail _ _))
    | ok work => exact trouble_of_work readable worked

/-! ### Writing its result -/

theorem hasError_emit (target : Path) (report : FileReport) (text : Text) :
    HasError (emit job tree target report text).1.diagnostics ↔
      HasError report.diagnostics ∨ job.printed = false ∧ ∃ error, (tree.write target text).1 = some error := by
  rw [emit]
  cases job.printed with
  | true => simp
  | false =>
    cases tree.write target text with
    | mk error written =>
      cases error with
      | none => simp
      | some error => simp [hasError_fail]

theorem tree_emit (target : Path) (report : FileReport) (text : Text) :
    (emit job tree target report text).2 = if job.printed then tree else (tree.write target text).2 := by
  rw [emit]
  cases job.printed with
  | true => rfl
  | false =>
    cases tree.write target text with
    | mk error written => cases error <;> rfl

theorem tree_of_emit {target : Path} {report done : FileReport} {text : Text} {next : Tree}
    (kept : job.printed = false) (emitted : emit job tree target report text = (done, next)) :
    next = (tree.write target text).2 := by
  have written : (emit job tree target report text).2 = _ := tree_emit target report text
  rw [emitted, kept] at written
  exact written

theorem emit_of_write {target : Path} {text : Text} {next : Tree} (report : FileReport)
    (kept : job.printed = false) (accepted : tree.write target text = (none, next)) :
    emit job tree target report text = (report, next) := by
  simp [emit, kept, accepted]

theorem tree_processFile (job : Job) (tree : Tree) (path : Path) :
    (processFile job tree path).2 =
      match job.result? tree path with
      | none => tree
      | some text => if job.printed then tree else (tree.write (job.output path) text).2 := by
  rw [processFile_eq, Job.result?]
  cases job.read tree path with
  | mk report result =>
    cases result with
    | none => rfl
    | some text => exact tree_emit _ _ _

theorem emit_changed {target : Path} {report : FileReport} {text : Text} {location : Location}
    (changed : (emit job tree target report text).2.content? location ≠ tree.content? location) :
    job.printed = false ∧ location = target.place ∧
      (emit job tree target report text).2.content? location = some (.text text) := by
  rw [tree_emit] at changed ⊢
  cases kept : job.printed with
  | true =>
    rw [kept, if_pos rfl] at changed
    exact absurd rfl changed
  | false =>
    rw [kept] at changed
    obtain ⟨_, here, holds⟩ := tree.content?_write _ _ _ changed
    refine ⟨rfl, here, ?_⟩
    rw [if_neg Bool.false_ne_true, Tree.content?, holds]

theorem hasError_idle {report : FileReport} (read : job.read tree path = (report, none)) :
    HasError report.diagnostics ↔ Trouble job tree left path := by
  rw [trouble_iff, Job.result?, read]
  simp

theorem hasError_written {report : FileReport} {text : Text} (read : job.read tree path = (report, some text)) :
    HasError (emit job left (job.output path) report text).1.diagnostics ↔ Trouble job tree left path := by
  rw [trouble_iff, Job.result?, read, hasError_emit]
  simp

end
end TagCalls.Run
