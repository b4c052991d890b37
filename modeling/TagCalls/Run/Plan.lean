import TagCalls.Config.Settings
import TagCalls.Run.Warning
import TagCalls.Workspace.Source

/-!
What a run is going to do: its workspace, its settings and the files that it takes. The files are
those that the command line names or else all sources of the workspace that no glob ignores.
-/
namespace TagCalls.Run

structure Start where
  tree : Tree
  /-- The current directory. -/
  directory : Path
  /-- The function that tags call, from the environment. -/
  pragma : Option Text := none
  deriving DecidableEq, Repr

structure Plan where
  workspace : Workspace
  settings : Settings
  files : List Path
  warnings : List Warning
  deriving DecidableEq, Repr

def defaultIgnores : List Text := ["**/node_modules/**".toList, "**/*.out.html".toList]

def outDirIgnore (workspace : Workspace) : Option Text := do
  let directory ← Path.relative? workspace.root (← workspace.outDir)
  if directory = [] then none else some (directory ++ "/**".toList)

def parseIgnore (pattern : Text) : Except Fatal Glob :=
  match Glob.parse pattern with
  | .ok glob => .ok glob
  | .error error => .error (.glob pattern error)

/-- The globs that keep files out of a run. The run's own are added as far as they can be read. -/
def ignores (workspace : Workspace) (patterns : List Text) : Except Fatal (List Glob) := do
  let given ← patterns.mapM parseIgnore
  let own := defaultIgnores ++ (outDirIgnore workspace).toList
  return given ++ own.filterMap fun pattern => (Glob.parse pattern).toOption

def isSource (path : Path) : Bool := (SourceKind.of? path).isSome

def collect (tree : Tree) (workspace : Workspace) (globs : List Glob) : List Path :=
  (tree.walk workspace.root).filter fun path =>
    isSource path && !globs.any (·.accepts (workspace.shown path))

def loadConfig (tree : Tree) (root : Path) : Option Text → Except Fatal (Config × List Warning)
  | some path =>
    match Config.load tree (root.join path) with
    | .ok config => .ok (config, [])
    | .error error => .error (.config error)
  | none =>
    let (config, error) := Config.find tree root
    .ok (config, (error.map Warning.config).toList)

def plan (start : Start) (arguments : Arguments) : Except (Fatal × List Warning) Plan := do
  let root := start.directory.join arguments.workspace
  let (config, logged) ← (loadConfig start.tree root arguments.config).mapError (·, [])
  let settings := Settings.resolve arguments config start.pragma
  let workspace : Workspace := ⟨root, arguments.outDir.map root.join⟩
  let globs ← (ignores workspace settings.ignore).mapError (·, logged)
  let (files, skipped) :=
    if arguments.paths.isEmpty then (collect start.tree workspace globs, [])
    else (arguments.paths.map root.join).partition isSource
  return { workspace, settings, files, warnings := logged ++ skipped.map .noSource }

end TagCalls.Run
