import TagCalls.Run.Outcome
import TagCalls.Transpile.Check

/-!
The command. It takes a picture of the files that a run may touch, runs, and then writes what has
changed. Only sources and files that the command line names are read; all others count as bytes.
-/
namespace TagCalls.Command

def pathOf (location : Location) : String := "/" ++ "/".intercalate (location.map String.ofList)

def readEntry (location : Location) : IO Entry := do
  let .ok bytes ← (IO.FS.readBinFile (pathOf location)).toBaseIO | return .file .binary
  match String.fromUTF8? bytes with
  | some text => return .file (.text text.toList)
  | none => return .file .binary

/-- The entry at a location; links and devices have none. -/
def entryAt? (location : Location) : IO (Option Entry) := do
  let path := (← IO.currentDir) / pathOf location
  if !(← path.pathExists) then return none
  match (← path.metadata).type with
  | .dir => return some .directory
  | .file => return some (← readEntry location)
  | _ => return none

def entriesAlong : Location → List Text → IO (List (Location × Entry))
  | _, [] => return []
  | here, name :: names => do
    let next := if name = "..".toList then here.dropLast else here ++ [name]
    match ← entryAt? next with
    | none => return []
    | some entry => return (next, entry) :: (← entriesAlong next names)

/-- The entries below a directory. Links are not followed. -/
partial def entriesBelow (location : Location) : IO (List (Location × Entry)) := do
  let path := (← IO.currentDir) / pathOf location
  if !(← path.isDir) then return []
  let mut entries := []
  for item in ← path.readDir do
    let inner := location ++ [item.fileName.toList]
    match (← item.path.symlinkMetadata).type with
    | .dir => entries := (inner, Entry.directory) :: (← entriesBelow inner) ++ entries
    | .file =>
      let entry ← if Run.isSource item.path.toString.toList then readEntry inner else pure (.file .binary)
      entries := (inner, entry) :: entries
    | _ => pure ()
  return entries

def addEntries (tree : Tree) (entries : List (Location × Entry)) : Tree :=
  ⟨tree.entries ++ entries.filter fun entry => (tree.get? entry.1).isNone⟩

def snapshot (directory : Path) (arguments : Arguments) : IO Tree := do
  let root := directory.join arguments.workspace
  let outDir := arguments.outDir.map root.join
  let mut tree : Tree := {}
  for path in [root, root.join Config.fileName] ++ (arguments.paths ++ arguments.config.toList).map root.join ++
      outDir.toList do
    for entry in ← entriesAlong [] path.components do
      tree := addEntries tree [entry]
  for path in root :: outDir.toList do
    match tree.resolve path with
    | .ok location => tree := addEntries tree (← entriesBelow location)
    | .error _ => pure ()
  return tree

def store (before after : Tree) : IO Unit := do
  for (location, entry) in after.entries do
    if before.get? location ≠ some entry then
      match entry with
      | .directory => IO.FS.createDirAll (pathOf location)
      | .file (.text text) => IO.FS.writeFile (pathOf location) (String.ofList text)
      | .file .binary => pure ()

def usage : String :=
  "Usage: minijsx [OPTIONS] [PATHS]...\n\n" ++
  "Turns JSX tags into plain function calls.\n\n" ++
  "  --workspace <DIR>  directory to work in [default: .]\n" ++
  "  --out-dir <DIR>    directory for the results\n" ++
  "  --config <FILE>    configuration file\n" ++
  "  --pragma <NAME>    function that tags call\n" ++
  "  --strict           check the nesting of tags\n" ++
  "  --validate         check that results are scripts\n" ++
  "  --best-effort      emit failed scripts untransformed\n" ++
  "  --output <FORMAT>  human, json or machine\n" ++
  "  --ignore <GLOB>    leave out matching files\n" ++
  "  --stdout           print the results\n" ++
  "  -v, --verbose\n  -h, --help\n  -V, --version\n"

def refuse (refusal : Arguments.Refusal) : IO UInt32 := do
  match refusal with
  | .help => IO.print usage
  | .version => IO.println "minijsx 0.3.0"
  | .unknownArgument => IO.eprintln "error: unexpected argument"
  | .invalidValue => IO.eprintln "error: invalid or missing value of an option"
  | .conflict => IO.eprintln "error: an option was given twice"
  | .tooManyValues => IO.eprintln "error: unexpected value of a flag"
  return refusal.exit.toUInt32

def warn (warnings : List Run.Warning) : IO Unit := do
  for warning in warnings do
    IO.eprintln (String.ofList ("warning: ".toList ++ warning.message))

def execute (arguments : Arguments) : IO UInt32 := do
  let directory := (← IO.currentDir).toString.toList
  let tree ← snapshot directory arguments
  let pragma := (← IO.getEnv "MINIJSX_PRAGMA").map (·.toList)
  match run Transpile.scriptChecker ⟨tree, directory, pragma⟩ arguments with
  | .error (fatal, warnings) =>
    warn warnings
    IO.eprintln (String.ofList ("error: ".toList ++ fatal.message))
    return 1
  | .ok outcome =>
    store tree outcome.tree
    warn outcome.warnings
    IO.print (String.ofList outcome.stdout)
    IO.eprint (String.ofList outcome.stderr)
    return outcome.exit.toUInt32

end TagCalls.Command

def main (arguments : List String) : IO UInt32 :=
  match TagCalls.Arguments.parse (arguments.map (·.toList)) with
  | .error refusal => TagCalls.Command.refuse refusal
  | .ok arguments => TagCalls.Command.execute arguments
