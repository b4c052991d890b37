import TagCalls.Config.File
import TagCalls.Workspace.Tree

/-!
Finding the configuration file of a workspace.
-/
namespace TagCalls.Config

inductive LoadError where
  | read (path : Path) (error : FileError)
  | parse (path : Path) (detail : Text)
  deriving DecidableEq, Repr

def LoadError.message : LoadError → Text
  | .read path error => "failed to read ".toList ++ path ++ ": ".toList ++ error.message
  | .parse path detail => "failed to parse ".toList ++ path ++ ": ".toList ++ detail

def load (tree : Tree) (path : Path) : Except LoadError Config :=
  match tree.read path with
  | .error error => .error (.read path error)
  | .ok text =>
    match parse? text with
    | none => .error (.parse path "not a configuration".toList)
    | some config => .ok config

def fileName : Text := "minijsx.config.json".toList

/-- The configuration of a workspace, or none. A file that cannot be used does not count, but gives
an error besides. -/
def find (tree : Tree) (root : Path) : Config × Option LoadError :=
  let path := root.join fileName
  if tree.has path then
    match load tree path with
    | .ok config => (config, none)
    | .error error => ({}, some error)
  else ({}, none)

end TagCalls.Config
