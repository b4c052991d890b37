import TagCalls.Workspace.Path

/-!
A tree of files as a value, and what reading and writing do to it. An entry is known by its
location, the names from the root down to it.
-/
namespace TagCalls

inductive FileError where
  | notFound
  | alreadyExists
  | notDirectory
  | isDirectory
  | notText
  deriving DecidableEq, Repr

def FileError.message : FileError → Text
  | .notFound => "No such file or directory (os error 2)".toList
  | .alreadyExists => "File exists (os error 17)".toList
  | .notDirectory => "Not a directory (os error 20)".toList
  | .isDirectory => "Is a directory (os error 21)".toList
  | .notText => "stream did not contain valid UTF-8".toList

/-- What a file holds: a text, or bytes that are none. -/
inductive Content where
  | text (text : Text)
  | binary
  deriving DecidableEq, Repr

inductive Entry where
  | file (content : Content)
  | directory
  deriving DecidableEq, Repr

abbrev Location := List Text

structure Tree where
  entries : List (Location × Entry) := []
  deriving DecidableEq, Repr

namespace Tree

def find? (location : Location) : List (Location × Entry) → Option Entry
  | [] => none
  | old :: rest => if old.1 = location then some old.2 else find? location rest

/-- The entry at a location; the root is a directory of every tree. -/
def get? (tree : Tree) (location : Location) : Option Entry :=
  if location = [] then some .directory else find? location tree.entries

def replace (location : Location) (entry : Entry) : List (Location × Entry) → List (Location × Entry)
  | [] => [(location, entry)]
  | old :: rest => if old.1 = location then (location, entry) :: rest else old :: replace location entry rest

def put (tree : Tree) (location : Location) (entry : Entry) : Tree := ⟨replace location entry tree.entries⟩

theorem find?_replace (location other : Location) (entry : Entry) (entries : List (Location × Entry)) :
    find? other (replace location entry entries) =
      if other = location then some entry else find? other entries := by
  induction entries with
  | nil => simp only [replace, find?, eq_comm (a := location)]
  | cons old rest ih =>
    by_cases here : old.1 = location <;> by_cases same : other = location
    · simp [replace, find?, here, same]
    · simp [replace, find?, here, same, Ne.symm same]
    · subst same
      simpa [replace, find?, here] using ih
    · simp only [replace, here, if_false, find?, ih, same]

theorem get?_put (tree : Tree) {location : Location} (below : location ≠ []) (entry : Entry) (other : Location) :
    (tree.put location entry).get? other = if other = location then some entry else tree.get? other := by
  by_cases top : other = []
  · subst top
    simp [get?, Ne.symm below]
  · simp [get?, put, top, find?_replace]

def step (here : Location) (name : Text) : Location :=
  if name = ".".toList then here else if name = "..".toList then here.dropLast else here ++ [name]

/-- Where steps lead from a location. Each must start from a directory. -/
def follow (tree : Tree) : Location → List Text → Except FileError Location
  | here, [] => .ok here
  | here, name :: names =>
    match tree.get? here with
    | none => .error .notFound
    | some (.file _) => .error .notDirectory
    | some .directory => tree.follow (step here name) names

def resolve (tree : Tree) (path : Path) : Except FileError Location := tree.follow [] path.steps

def read (tree : Tree) (path : Path) : Except FileError Text := do
  match tree.get? (← tree.resolve path) with
  | none => .error .notFound
  | some .directory => .error .isDirectory
  | some (.file content) =>
    if path.endsInSlash then .error .notDirectory
    else
      match content with
      | .text text => .ok text
      | .binary => .error .notText

def has (tree : Tree) (path : Path) : Bool :=
  match tree.resolve path with
  | .error _ => false
  | .ok location =>
    match tree.get? location with
    | none => false
    | some .directory => true
    | some (.file _) => !path.endsInSlash

def isDirectory (tree : Tree) (names : List Text) : Bool :=
  match tree.follow [] names with
  | .error _ => false
  | .ok location => tree.get? location == some .directory

def makeDirectory (tree : Tree) (names : List Text) : Except FileError Tree := do
  let location ← tree.follow [] names
  if (tree.get? location).isSome then .error .alreadyExists else .ok (tree.put location .directory)

/-- Makes a directory and those above it, as far as they are missing; the names come last first.
What was made stays if a later step fails. -/
def makeDirectories (tree : Tree) : List Text → Option FileError × Tree
  | [] => (none, tree)
  | name :: above =>
    let names := (name :: above).reverse
    match tree.makeDirectory names with
    | .ok made => (none, made)
    | .error .notFound =>
      match tree.makeDirectories above with
      | (some error, higher) => (some error, higher)
      | (none, higher) =>
        match higher.makeDirectory names with
        | .ok made => (none, made)
        | .error error => (if higher.isDirectory names then none else some error, higher)
    | .error error => (if tree.isDirectory names then none else some error, tree)

def writeFile (tree : Tree) (path : Path) (text : Text) : Except FileError Tree := do
  let location ← tree.resolve path
  if tree.get? location = some .directory ∨ path.endsInSlash then .error .isDirectory
  else .ok (tree.put location (.file (.text text)))

def write (tree : Tree) (path : Path) (text : Text) : Option FileError × Tree :=
  match tree.makeDirectories path.components.reverse.tail with
  | (some error, made) => (some error, made)
  | (none, made) =>
    match made.writeFile path text with
    | .error error => (some error, made)
    | .ok written => (none, written)

/-- Names in the order of their bytes, one level after the other. -/
def inOrder (a b : Location) : Bool := !decide (b < a)

def filesBelow (tree : Tree) (top : Location) : List Location :=
  (tree.entries.filterMap fun (location, entry) =>
    match entry with
    | .file _ => if top.isPrefixOf location then some (location.drop top.length) else none
    | .directory => none).mergeSort inOrder

def walk (tree : Tree) (path : Path) : List Path :=
  match tree.resolve path with
  | .error _ => []
  | .ok top =>
    match tree.get? top with
    | none => []
    | some (.file _) => if path.endsInSlash then [] else [path]
    | some .directory => (tree.filesBelow top).map fun names => names.foldl Path.join path

end Tree
end TagCalls
