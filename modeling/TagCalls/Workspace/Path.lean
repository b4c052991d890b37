import TagCalls.Text.Basic

/-!
Paths as they are written. Joining and cutting keep the text as it is; only where components are
compared do doubled slashes and inner dots not count. Two dots are a component like any other.
-/
namespace TagCalls

abbrev Path := Text

namespace Path

def isAbsolute (path : Path) : Bool := path.head? == some '/'

/-- A path under a directory; an absolute path stays as it is. -/
def join (directory path : Path) : Path :=
  if path.isAbsolute then path
  else
    match directory.getLast? with
    | none => path
    | some '/' => directory ++ path
    | some _ => directory ++ '/' :: path

/-- The path without slashes and dots in front that are no components. -/
def skipLeft : Path → Path
  | '/' :: t => skipLeft t
  | '.' :: '/' :: t => skipLeft t
  | ['.'] => []
  | t => t

def skipRight : Text → Text
  | '/' :: t => skipRight t
  | '.' :: '/' :: t => skipRight t
  | t => t

def trimRight (path : Path) : Path := (skipRight path.reverse).reverse

def isSlash (c : Char) : Bool := c == '/'

def pieces : Text → List Text
  | [] => [[]]
  | c :: t =>
    if isSlash c then [] :: pieces t
    else
      match pieces t with
      | [] => [[c]]
      | piece :: rest => (c :: piece) :: rest

/-- The steps of a walk along an absolute path. A dot is a step that stays where it is. -/
def steps (path : Path) : List Text := (pieces path).filter (· ≠ [])

def components (path : Path) : List Text := path.steps.filter (· ≠ ['.'])

def dropComponents? : List Text → Path → Option Path
  | [], path => some (skipLeft path)
  | component :: rest, path =>
    let body := skipLeft path
    if body ≠ [] ∧ body.takeWhile (!isSlash ·) = component then
      dropComponents? rest (body.dropWhile (!isSlash ·))
    else none

def relative? (directory path : Path) : Option Path :=
  if directory.isAbsolute && path.isAbsolute then
    (dropComponents? directory.components path).map trimRight
  else none

/-- The last component, unless it leads upwards. -/
def fileName? (path : Path) : Option Text :=
  match path.components.getLast? with
  | none => none
  | some name => if name = "..".toList then none else some name

/-- A name before and behind its last dot, unless that dot comes first. -/
def splitExtension (name : Text) : Text × Option Text :=
  let behind := name.reverse.takeWhile (· ≠ '.')
  match name.reverse.dropWhile (· ≠ '.') with
  | '.' :: c :: stem => ((c :: stem).reverse, some behind.reverse)
  | _ => (name, none)

def extension? (path : Path) : Option Text := path.fileName?.bind fun name => (splitExtension name).2

def withExtension (extension : Text) (path : Path) : Path :=
  match path.fileName? with
  | none => path
  | some name =>
    let whole := path.trimRight
    whole.take (whole.length - name.length) ++ (splitExtension name).1 ++ '.' :: extension

/-- Whether the text of a path asks for a directory. -/
def endsInSlash (path : Path) : Bool := path.getLast? == some '/'

end Path
end TagCalls
