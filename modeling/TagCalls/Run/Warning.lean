import TagCalls.Config.Load
import TagCalls.Glob.Parser
import TagCalls.Page.Process

/-!
What goes wrong in a run: faults that end it, faults of one file, and what is only logged.
-/
namespace TagCalls.Run

/-- A fault that ends a run before any file is read. -/
inductive Fatal where
  | config (error : Config.LoadError)
  | glob (pattern : Text) (error : Glob.Error)
  deriving DecidableEq, Repr

def Fatal.message : Fatal → Text
  | .config error => "invalid configuration: ".toList ++ error.message
  | .glob pattern error =>
    "invalid glob pattern: error parsing glob '".toList ++ pattern ++ "': ".toList ++ error.message

def Fatal.code : Fatal → Text
  | .config _ => "minijsx::config".toList
  | .glob .. => "minijsx::glob".toList

inductive Failure where
  | read (path : Path) (error : FileError)
  | write (path : Path) (error : FileError)
  | locate (path : Path) (error : Page.LocateError)
  deriving DecidableEq, Repr

def Failure.message : Failure → Text
  | .read path error => "failed to read ".toList ++ path ++ ": ".toList ++ error.message
  | .write path error => "failed to write ".toList ++ path ++ ": ".toList ++ error.message
  | .locate path error => "failed to scan ".toList ++ path ++ ": ".toList ++ error.message

def Failure.code : Failure → Text
  | .read .. => "minijsx::read".toList
  | .write .. => "minijsx::write".toList
  | .locate .. => "minijsx::locate".toList

inductive Warning where
  /-- The configuration of the workspace does not count. -/
  | config (error : Config.LoadError)
  /-- A path of the command line is no source. -/
  | noSource (path : Path)
  | transpile (error : TranspileError)
  | blockFallback (id : Nat)
  | blockSkipped (id : Nat)
  | load (error : Page.LoadError)
  | file (failure : Failure)
  deriving DecidableEq, Repr

namespace Warning

def message : Warning → Text
  | .config error => error.message ++ "; using defaults".toList
  | .noSource path => "skipping ".toList ++ path ++ ": not a .jsx or .html file".toList
  | .transpile error => "transpile failed: ".toList ++ error.message
  | .blockFallback id => "block ".toList ++ Page.Block.label id ++ " loaded untransformed".toList
  | .blockSkipped id => "block ".toList ++ Page.Block.label id ++ " skipped".toList
  | .load error => error.message
  | .file failure => failure.message

def ofResult (result : Transpiled) : List Warning := (result.error?.map .transpile).toList

def ofStatus (id : Nat) : Page.Status → List Warning
  | .loaded => []
  | .loadedFallback => [.blockFallback id]
  | .skipped => [.blockSkipped id]
  | .loadFailed error => [.load error]

def ofReport (report : Page.Report) : List Warning :=
  ofResult report.result ++ ofStatus report.id report.status

end Warning
end TagCalls.Run
