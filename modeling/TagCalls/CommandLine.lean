import TagCalls.Diagnostic.Report

/-!
The command line. Options take their value from behind an equals sign or from the next argument;
only `--ignore` may come back. The value of the next argument is taken up when the argument behind
it begins, so that a fault of the latter may come first.
-/
namespace TagCalls

structure Arguments where
  paths : List Text := []
  workspace : Text := ".".toList
  outDir : Option Text := none
  config : Option Text := none
  pragma : Option Text := none
  strict : Bool := false
  validate : Bool := false
  bestEffort : Bool := false
  output : Format := .human
  ignore : List Text := []
  stdout : Bool := false
  verbose : Bool := false
  deriving DecidableEq, Repr

namespace Arguments

/-- Why a command line gives no arguments. The last two are asked for. -/
inductive Refusal where
  | unknownArgument
  | invalidValue
  | conflict
  | tooManyValues
  | help
  | version
  deriving DecidableEq, Repr

inductive Setting where
  | workspace
  | outDir
  | config
  | pragma
  | output
  | ignore
  deriving DecidableEq, Repr

inductive Flag where
  | strict
  | validate
  | bestEffort
  | stdout
  | verbose
  | help
  | version
  deriving DecidableEq, Repr

def setting? (name : Text) : Option Setting :=
  [("workspace", Setting.workspace), ("out-dir", .outDir), ("config", .config), ("pragma", .pragma),
   ("output", .output), ("ignore", .ignore)].lookup (String.ofList name)

def flag? (name : Text) : Option Flag :=
  [("strict", Flag.strict), ("validate", .validate), ("best-effort", .bestEffort), ("stdout", .stdout),
   ("verbose", .verbose), ("help", .help), ("version", .version)].lookup (String.ofList name)

def shortFlag? : Char → Option Flag
  | 'v' => some .verbose
  | 'h' => some .help
  | 'V' => some .version
  | _ => none

def format? (name : Text) : Option Format :=
  [("human", Format.human), ("json", .json), ("machine", .machine)].lookup (String.ofList name)

structure Progress where
  result : Arguments := {}
  /-- Options that may not come back. -/
  seen : List (Setting ⊕ Flag) := []
  /-- An option whose value was the next argument, or is still to come. -/
  pending : Option (Setting × Option Text) := none

def once (option : Setting ⊕ Flag) (progress : Progress) : Except Refusal Progress :=
  if progress.seen.contains option then .error .conflict
  else .ok { progress with seen := option :: progress.seen }

def setValue (setting : Setting) (value : Text) (progress : Progress) : Except Refusal Progress := do
  let keep (result : Arguments) : Except Refusal Progress := do
    return { ← once (.inl setting) progress with result }
  let result := progress.result
  match setting with
  | .workspace => keep { result with workspace := value }
  | .outDir => keep { result with outDir := some value }
  | .config => keep { result with config := some value }
  | .pragma => keep { result with pragma := some value }
  | .ignore => return { progress with result := { result with ignore := result.ignore ++ [value] } }
  | .output =>
    let progress ← once (.inl setting) progress
    match format? value with
    | some output => return { progress with result := { result with output } }
    | none => .error .invalidValue

def settle (progress : Progress) : Except Refusal Progress :=
  match progress.pending with
  | none => .ok progress
  | some (_, none) => .error .invalidValue
  | some (setting, some value) => setValue setting value { progress with pending := none }

def setFlag (flag : Flag) (progress : Progress) : Except Refusal Progress := do
  let progress ← settle progress
  let keep (result : Arguments) : Except Refusal Progress := do
    return { ← once (.inr flag) progress with result }
  let result := progress.result
  match flag with
  | .strict => keep { result with strict := true }
  | .validate => keep { result with validate := true }
  | .bestEffort => keep { result with bestEffort := true }
  | .stdout => keep { result with stdout := true }
  | .verbose => keep { result with verbose := true }
  | .help => .error .help
  | .version => .error .version

def addPath (path : Text) (progress : Progress) : Except Refusal Progress := do
  let progress ← settle progress
  return { progress with result := { progress.result with paths := progress.result.paths ++ [path] } }

def readLong (body : Text) (progress : Progress) : Except Refusal Progress := do
  let (name, value) := match Text.splitFirst? '=' body with
    | some (name, value) => (name, some value)
    | none => (body, none)
  match setting? name, flag? name, value with
  | some setting, _, some value => setValue setting value (← settle progress)
  | some setting, _, none => return { ← settle progress with pending := some (setting, none) }
  | _, some _, some _ => .error .tooManyValues
  | _, some flag, none => setFlag flag progress
  | _, _, _ => .error .unknownArgument

def readShort : Text → Progress → Except Refusal Progress
  | [], progress => .ok progress
  | c :: letters, progress =>
    match shortFlag? c with
    | some flag => do readShort letters (← setFlag flag progress)
    | none => .error .unknownArgument

def readPlain (argument : Text) (progress : Progress) : Except Refusal Progress :=
  match progress.pending with
  | some (setting, none) => .ok { progress with pending := some (setting, some argument) }
  | _ => addPath argument progress

def readArguments : Progress → List Text → Except Refusal Progress
  | progress, [] => settle progress
  | progress, argument :: rest => do
    match argument with
    | '-' :: '-' :: [] => settle (← rest.foldlM (fun progress path => addPath path progress) progress)
    | '-' :: '-' :: body => readArguments (← readLong body progress) rest
    | '-' :: c :: letters => readArguments (← readShort (c :: letters) progress) rest
    | _ => readArguments (← readPlain argument progress) rest

def parse (arguments : List Text) : Except Refusal Arguments :=
  (readArguments {} arguments).map (·.result)

def Refusal.exit : Refusal → Nat
  | .help => 0
  | .version => 0
  | _ => 2

end Arguments
end TagCalls
