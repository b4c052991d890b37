import TagCalls.Workspace.Path

/-!
Which files of a workspace are sources, and where their results go.
-/
namespace TagCalls

inductive SourceKind where
  | script
  | page
  deriving DecidableEq, Repr

def SourceKind.of? (path : Path) : Option SourceKind :=
  match path.extension? with
  | none => none
  | some extension =>
    if extension = "jsx".toList then some .script
    else if extension = "html".toList ∨ extension = "htm".toList then some .page
    else none

/-- A workspace, and the directory for its results if they do not go beside their sources. -/
structure Workspace where
  root : Path
  outDir : Option Path := none
  deriving DecidableEq, Repr

namespace Workspace

def shown (workspace : Workspace) (path : Path) : Path := (Path.relative? workspace.root path).getD path

/-- Where the result of a file goes. A file from elsewhere goes to the top of the output directory. -/
def target (workspace : Workspace) (kind : SourceKind) (path : Path) : Path :=
  match workspace.outDir, kind with
  | none, .script => path.withExtension "js".toList
  | none, .page => path.withExtension "out.html".toList
  | some outDir, kind =>
    let placed := outDir.join ((Path.relative? workspace.root path).getD (path.fileName?.getD []))
    match kind with
    | .script => placed.withExtension "js".toList
    | .page => placed

end Workspace
end TagCalls
