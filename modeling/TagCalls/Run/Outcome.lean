import TagCalls.Run.File

/-!
A whole run: its plan, its files one after the other, and what it prints. Printed results own the
standard output; the report then goes to the standard error.
-/
namespace TagCalls.Run

def countSeverity (severity : Severity) (reports : List FileReport) : Nat :=
  (reports.flatMap (·.diagnostics)).countP (·.severity == severity)

def summarize (reports : List FileReport) : Summary where
  files := reports.length
  blocks := reports.foldr (fun report blocks => report.blocks + blocks) 0
  errors := countSeverity .error reports
  warnings := countSeverity .warning reports

def endLine (t : Text) : Text := if t.getLast? = some '\n' then t else t ++ ['\n']

def printedText (reports : List FileReport) : Text :=
  reports.flatMap fun report => (report.printed.map endLine).getD []

def FileReport.json (report : FileReport) : List (Json Text) :=
  report.diagnostics.map (Diagnostic.json report.path (LineIndex.of report.source))

/-- The report on all files. JSON is one array and has no summary. -/
def reportText (format : Format) (reports : List FileReport) : Text :=
  match format with
  | .json => (Json.array (reports.flatMap (·.json))).pretty ++ ['\n']
  | format =>
    (reports.flatMap fun report => format.render report.path report.source report.diagnostics) ++
      (summarize reports).text ++ ['\n']

structure Outcome where
  tree : Tree
  stdout : Text
  stderr : Text
  warnings : List Warning
  summary : Summary
  deriving DecidableEq, Repr

def Outcome.exit (outcome : Outcome) : Nat := if 0 < outcome.summary.errors then 1 else 0

def Plan.job (plan : Plan) (arguments : Arguments) (checker : Checker) : Job where
  workspace := plan.workspace
  session := plan.settings.session checker
  scriptType := plan.settings.scriptType
  bestEffort := plan.settings.bestEffort
  printed := arguments.stdout

end Run

def run (checker : Checker) (start : Run.Start) (arguments : Arguments) :
    Except (Run.Fatal × List Run.Warning) Run.Outcome := do
  let plan ← Run.plan start arguments
  let (reports, tree) := Run.processFiles (plan.job arguments checker) start.tree plan.files
  let report := Run.reportText arguments.output reports
  return {
    tree
    stdout := if arguments.stdout then Run.printedText reports else report
    stderr := if arguments.stdout then report else []
    warnings := plan.warnings ++ reports.flatMap (·.warnings)
    summary := Run.summarize reports }

end TagCalls
