import Mathlib.Data.List.TakeWhile
import TagCalls.Workspace.Tree

/-!
What reading and writing do to a tree, seen through `Tree.get?`. A path leads to the same place in every
tree; along the way it only needs directories. Making the directories above a file stops at the first
file that is in the way, and writing changes nothing but the missing directories and the place itself.
-/
namespace TagCalls

namespace Tree

def along : Location → List Text → List Location
  | here, [] => [here]
  | here, name :: names => here :: along (step here name) names

def isFile (tree : Tree) (location : Location) : Bool :=
  match tree.get? location with
  | some (.file _) => true
  | _ => false

def content? (tree : Tree) (location : Location) : Option Content :=
  match tree.get? location with
  | some (.file content) => some content
  | _ => none

end Tree

namespace Path

def place (path : Path) : Location := path.steps.foldl Tree.step []

def way (path : Path) : List Location := Tree.along [] path.components.dropLast

/-- Whether the text of a path can name a file: it ends in no slash and no dot that is a step. -/
def namesFile (path : Path) : Bool := !path.endsInSlash && path.steps.getLast? != some ['.']

end Path

namespace Tree

theorem get?_root (tree : Tree) : tree.get? [] = some .directory := if_pos rfl

theorem step_dot (here : Location) : step here ['.'] = here := if_pos rfl

theorem along_snoc (here : Location) (names : List Text) (name : Text) :
    along here (names ++ [name]) = along here names ++ [(names ++ [name]).foldl step here] := by
  induction names generalizing here with
  | nil => rfl
  | cons first names ih =>
    rw [List.cons_append, along, ih, along]
    rfl

theorem end_mem_along (here : Location) (names : List Text) : names.foldl step here ∈ along here names := by
  induction names generalizing here with
  | nil => exact List.mem_singleton_self here
  | cons name names ih => exact List.mem_cons_of_mem here (ih (step here name))

theorem here_mem_along (here : Location) (names : List Text) : here ∈ along here names := by
  cases names with
  | nil => exact List.mem_singleton_self here
  | cons name names => exact List.mem_cons_self

theorem mem_along_filter {here location : Location} {names : List Text} :
    location ∈ along here (names.filter (· ≠ ['.'])) ↔ location ∈ along here names := by
  induction names generalizing here with
  | nil => exact Iff.rfl
  | cons name names ih =>
    by_cases dot : name = ['.']
    · subst dot
      rw [List.filter_cons_of_neg (by simp), ih, along, step_dot, List.mem_cons]
      constructor
      · intro later
        exact .inr later
      · intro member
        rcases member with rfl | later
        · exact here_mem_along _ names
        · exact later
    · rw [List.filter_cons_of_pos (by simpa using dot), along, along, List.mem_cons, List.mem_cons, ih]

theorem mem_along_of_dropLast {here location : Location} {names : List Text}
    (member : location ∈ along here names.dropLast) : location ∈ along here names := by
  rcases List.eq_nil_or_concat names with rfl | ⟨front, last, rfl⟩
  · exact member
  · rw [List.concat_eq_append, List.dropLast_concat] at member
    rw [List.concat_eq_append, along_snoc]
    exact List.mem_append_left _ member

theorem foldl_step_filter (here : Location) (names : List Text) :
    (names.filter (· ≠ ['.'])).foldl step here = names.foldl step here := by
  induction names generalizing here with
  | nil => rfl
  | cons name names ih =>
    by_cases dot : name = ['.']
    · subst dot
      rw [List.filter_cons_of_neg (by simp), ih, List.foldl_cons, step_dot]
    · rw [List.filter_cons_of_pos (by simpa using dot), List.foldl_cons, List.foldl_cons, ih]

/-! ### Following names -/

section
variable {tree : Tree}

theorem follow_append (here : Location) (first second : List Text) :
    tree.follow here (first ++ second) = tree.follow here first >>= fun next => tree.follow next second := by
  induction first generalizing here with
  | nil => rfl
  | cons name first ih =>
    rw [List.cons_append, follow, follow]
    cases tree.get? here with
    | none => rfl
    | some entry =>
      cases entry with
      | file content => rfl
      | directory => exact ih (step here name)

theorem eq_of_follow {here location : Location} {names : List Text}
    (reached : tree.follow here names = .ok location) : location = names.foldl step here := by
  induction names generalizing here with
  | nil =>
    cases reached
    rfl
  | cons name names ih =>
    rw [follow] at reached
    split at reached
    · cases reached
    · cases reached
    · exact ih reached

theorem passed_of_follow {here location : Location} {names : List Text}
    (reached : tree.follow here names = .ok location) :
    ∀ passed ∈ along here names, tree.get? passed = some .directory ∨ passed = location := by
  induction names generalizing here with
  | nil =>
    cases reached
    intro passed member
    exact .inr (List.mem_singleton.mp member)
  | cons name names ih =>
    rw [follow] at reached
    split at reached
    · cases reached
    · cases reached
    · next found =>
      intro passed member
      rcases List.mem_cons.mp member with rfl | later
      · exact .inl found
      · exact ih reached passed later

theorem directories_of_follow {here location : Location} {names : List Text} {name : Text}
    (reached : tree.follow here (names ++ [name]) = .ok location) :
    ∀ passed ∈ along here names, tree.get? passed = some .directory := by
  induction names generalizing here with
  | nil =>
    intro passed member
    obtain rfl := List.mem_singleton.mp member
    rw [List.nil_append, follow] at reached
    split at reached
    · cases reached
    · cases reached
    · assumption
  | cons first names ih =>
    rw [List.cons_append, follow] at reached
    split at reached
    · cases reached
    · cases reached
    · next found =>
      intro passed member
      rcases List.mem_cons.mp member with rfl | later
      · exact found
      · exact ih reached passed later

theorem follow_of_directories {here : Location} {names : List Text} (name : Text)
    (passable : ∀ passed ∈ along here names, tree.get? passed = some .directory) :
    tree.follow here (names ++ [name]) = .ok ((names ++ [name]).foldl step here) := by
  induction names generalizing here with
  | nil =>
    have found := passable here (List.mem_singleton_self here)
    rw [List.nil_append, follow, found]
    rfl
  | cons first names ih =>
    have found := passable here List.mem_cons_self
    rw [List.cons_append, follow, found]
    exact ih fun passed member => passable passed (List.mem_cons_of_mem here member)

theorem follow_congr {other : Tree} {here : Location} {names : List Text}
    (agree : ∀ location ∈ along here names, tree.get? location = other.get? location) :
    tree.follow here names = other.follow here names := by
  induction names generalizing here with
  | nil => rfl
  | cons name names ih =>
    rw [follow, follow, agree here List.mem_cons_self,
      ih fun location member => agree location (List.mem_cons_of_mem here member)]

theorem read_congr {other : Tree} {path : Path}
    (agree : ∀ location ∈ along [] path.steps, tree.get? location = other.get? location) :
    tree.read path = other.read path := by
  rw [read, read, resolve, resolve, follow_congr agree]
  cases reached : other.follow [] path.steps with
  | error error => rfl
  | ok location =>
    have final := eq_of_follow reached
    have same := agree location (final ▸ end_mem_along [] path.steps)
    simp only [bind, Except.bind, same]

end

/-! ### Making directories from the top down -/

/-- Makes directories where they are missing, up to the first file in the way, and tells whether there
is none. -/
def makeAll : Tree → List Location → Bool × Tree
  | tree, [] => (true, tree)
  | tree, location :: rest =>
    match tree.get? location with
    | some (.file _) => (false, tree)
    | some .directory => tree.makeAll rest
    | none => (tree.put location .directory).makeAll rest

section
variable {tree : Tree}

theorem makeAll_append (first second : List Location) :
    tree.makeAll (first ++ second) =
      if (tree.makeAll first).1 then (tree.makeAll first).2.makeAll second else tree.makeAll first := by
  induction first generalizing tree with
  | nil => rfl
  | cons location first ih =>
    rw [List.cons_append, makeAll, makeAll]
    cases tree.get? location with
    | none => exact ih
    | some entry =>
      cases entry with
      | file content => rfl
      | directory => exact ih

theorem makeAll_of_directories {locations : List Location}
    (present : ∀ location ∈ locations, tree.get? location = some .directory) :
    tree.makeAll locations = (true, tree) := by
  induction locations with
  | nil => rfl
  | cons location rest ih =>
    rw [makeAll, present location List.mem_cons_self]
    exact ih fun other member => present other (List.mem_cons_of_mem _ member)

theorem ne_root_of_none {location : Location} (missing : tree.get? location = none) : location ≠ [] := by
  intro root
  rw [root, get?_root] at missing
  cases missing

/-- The locations that are looked at: those before the first file, as the tree is now. -/
def reached (tree : Tree) (locations : List Location) : List Location :=
  locations.takeWhile (!tree.isFile ·)

theorem isFile_put_directory {location : Location} (missing : tree.get? location = none) (other : Location) :
    (tree.put location .directory).isFile other = tree.isFile other := by
  rw [isFile, isFile, get?_put tree (ne_root_of_none missing)]
  by_cases same : other = location
  · rw [if_pos same, same, missing]
  · rw [if_neg same]

theorem reached_put_directory {location : Location} (missing : tree.get? location = none)
    (locations : List Location) :
    (tree.put location .directory).reached locations = tree.reached locations := by
  unfold reached
  congr 1
  funext other
  rw [isFile_put_directory missing]

theorem makeAll_spec (tree : Tree) (locations : List Location) :
    ((tree.makeAll locations).1 = true ↔ ∀ location ∈ locations, tree.isFile location = false) ∧
    ∀ location, (tree.makeAll locations).2.get? location =
      if location ∈ tree.reached locations ∧ tree.get? location = none then some .directory
      else tree.get? location := by
  induction locations generalizing tree with
  | nil => simp [makeAll, reached]
  | cons first rest ih =>
    cases found : tree.get? first with
    | none =>
      have plain : tree.isFile first = false := by rw [isFile, found]
      have seen : tree.reached (first :: rest) = first :: tree.reached rest :=
        List.takeWhile_cons_of_pos (by rw [plain]; rfl)
      obtain ⟨whole, result⟩ := ih (tree.put first .directory)
      have made : tree.makeAll (first :: rest) = (tree.put first .directory).makeAll rest := by
        rw [makeAll, found]
      rw [made, seen]
      constructor
      · rw [whole]
        simp only [isFile_put_directory found, List.mem_cons, forall_eq_or_imp, plain, true_and]
      · intro location
        rw [result, reached_put_directory found, get?_put tree (ne_root_of_none found)]
        by_cases same : location = first
        · simp [same, found]
        · simp [same]
    | some entry =>
      cases entry with
      | file content =>
        have blocked : tree.isFile first = true := by rw [isFile, found]
        have seen : tree.reached (first :: rest) = [] :=
          List.takeWhile_cons_of_neg (by rw [blocked]; exact Bool.false_ne_true)
        have made : tree.makeAll (first :: rest) = (false, tree) := by rw [makeAll, found]
        rw [made, seen]
        simp [blocked]
      | directory =>
        have plain : tree.isFile first = false := by rw [isFile, found]
        have seen : tree.reached (first :: rest) = first :: tree.reached rest :=
          List.takeWhile_cons_of_pos (by rw [plain]; rfl)
        obtain ⟨whole, result⟩ := ih tree
        have made : tree.makeAll (first :: rest) = tree.makeAll rest := by rw [makeAll, found]
        rw [made, seen]
        constructor
        · rw [whole]
          simp only [List.mem_cons, forall_eq_or_imp, plain, true_and]
        · intro location
          rw [result]
          by_cases same : location = first
          · simp [same, found]
          · simp [same]

def Agrees (result : Option FileError × Tree) (made : Bool × Tree) : Prop :=
  (result.1 = none ↔ made.1 = true) ∧ result.2 = made.2

theorem follow_blocked {here : Location} {names : List Text} (name : Text)
    (blocked : ¬ ∀ passed ∈ along here names, tree.get? passed = some .directory) :
    tree.follow here (names ++ [name]) = .error .notFound ∨
      tree.follow here (names ++ [name]) = .error .notDirectory ∧
        tree.makeAll (along here names) = (false, tree) := by
  induction names generalizing here with
  | nil =>
    rw [List.nil_append, follow, along, makeAll]
    cases found : tree.get? here with
    | none => exact .inl rfl
    | some entry =>
      cases entry with
      | file content => exact .inr ⟨rfl, rfl⟩
      | directory =>
        apply absurd _ blocked
        intro passed member
        rw [List.mem_singleton.mp member]
        exact found
  | cons first names ih =>
    rw [List.cons_append, follow, along, makeAll]
    cases found : tree.get? here with
    | none => exact .inl rfl
    | some entry =>
      cases entry with
      | file content => exact .inr ⟨rfl, rfl⟩
      | directory =>
        apply ih
        intro passable
        apply blocked
        intro passed member
        rcases List.mem_cons.mp member with rfl | later
        · exact found
        · exact passable passed later

theorem makeDirectory_agrees {names : List Text} (name : Text)
    (passable : ∀ passed ∈ along [] names, tree.get? passed = some .directory) :
    tree.makeDirectory (names ++ [name]) ≠ .error .notFound ∧
    Agrees
      (match tree.makeDirectory (names ++ [name]) with
        | .ok made => (none, made)
        | .error error => (if tree.isDirectory (names ++ [name]) then none else some error, tree))
      (tree.makeAll [(names ++ [name]).foldl step []]) := by
  have reached := follow_of_directories name passable
  simp only [makeDirectory, isDirectory, reached, bind, Except.bind, makeAll]
  cases found : tree.get? ((names ++ [name]).foldl step []) with
  | none => simp [Agrees]
  | some entry =>
    cases entry with
    | file content => simp [Agrees]
    | directory => simp [Agrees]

theorem directories_of_makeAll {locations : List Location} (whole : (tree.makeAll locations).1 = true) :
    ∀ location ∈ locations, (tree.makeAll locations).2.get? location = some .directory := by
  intro location member
  obtain ⟨open_, result⟩ := tree.makeAll_spec locations
  have plain := open_.mp whole
  have seen : tree.reached locations = locations :=
    List.takeWhile_eq_self_iff.mpr fun other inside => by rw [plain other inside]; rfl
  rw [result, seen]
  have here := plain location member
  unfold isFile at here
  split at here
  · cases here
  · next other =>
    cases found : tree.get? location with
    | none => exact if_pos ⟨member, rfl⟩
    | some entry =>
      cases entry with
      | file content => exact absurd found (other content)
      | directory => exact if_neg fun both => nomatch both.2

theorem makeDirectories_agrees (tree : Tree) (backwards : List Text) :
    Agrees (tree.makeDirectories backwards) (tree.makeAll (along [] backwards.reverse)) := by
  -- Directories are looked for from the bottom up and made from the top down.
  induction backwards generalizing tree with
  | nil =>
    have root : ∀ location ∈ along [] [], tree.get? location = some .directory := by
      intro location member
      rw [List.mem_singleton.mp member]
      exact tree.get?_root
    rw [makeDirectories, List.reverse_nil, makeAll_of_directories root]
    exact ⟨⟨fun _ => rfl, fun _ => rfl⟩, rfl⟩
  | cons name above ih =>
    rw [List.reverse_cons, along_snoc, makeAll_append]
    by_cases passable : ∀ passed ∈ along [] above.reverse, tree.get? passed = some .directory
    · obtain ⟨found, agrees⟩ := makeDirectory_agrees name passable
      rw [makeAll_of_directories passable, if_pos rfl]
      rw [makeDirectories, List.reverse_cons]
      cases made : tree.makeDirectory (above.reverse ++ [name]) with
      | ok next =>
        rw [made] at agrees
        exact agrees
      | error error =>
        rw [made] at agrees found
        cases error with
        | notFound => exact absurd rfl found
        | alreadyExists | notDirectory | isDirectory | notText => exact agrees
    · obtain ⟨first, second⟩ := ih tree
      rcases follow_blocked name passable with missing | ⟨blocked, stopped⟩
      · have lacking : tree.makeDirectory (above.reverse ++ [name]) = .error .notFound := by
          rw [makeDirectory, missing]
          rfl
        rw [makeDirectories, List.reverse_cons, lacking]
        cases higher : tree.makeDirectories above with
        | mk error next =>
          rw [higher] at first second
          subst second
          cases error with
          | some error =>
            have failed : (tree.makeAll (along [] above.reverse)).1 = false :=
              Bool.eq_false_iff.mpr fun whole => nomatch first.mpr whole
            rw [failed, if_neg Bool.false_ne_true]
            exact ⟨by rw [failed]; simp, rfl⟩
          | none =>
            have whole := first.mp rfl
            obtain ⟨_, agrees⟩ := makeDirectory_agrees name (directories_of_makeAll whole)
            rw [whole, if_pos rfl]
            cases made : (tree.makeAll (along [] above.reverse)).2.makeDirectory (above.reverse ++ [name]) with
            | ok next =>
              rw [made] at agrees
              simp only [made]
              exact agrees
            | error error =>
              rw [made] at agrees
              simp only [made]
              exact agrees
      · have refused : tree.makeDirectory (above.reverse ++ [name]) = .error .notDirectory := by
          rw [makeDirectory, blocked]
          rfl
        have elsewhere : tree.isDirectory (above.reverse ++ [name]) = false := by rw [isDirectory, blocked]
        rw [makeDirectories, List.reverse_cons, refused, stopped]
        simp [Agrees, elsewhere]

/-! ### Writing -/

theorem put_of_writeFile {path : Path} {text : Text} {written : Tree}
    (accepted : tree.writeFile path text = .ok written) :
    tree.get? path.place ≠ some .directory ∧ path.namesFile = true ∧
      written = tree.put path.place (.file (.text text)) := by
  rw [writeFile, resolve] at accepted
  cases reached : tree.follow [] path.steps with
  | error error =>
    rw [reached] at accepted
    cases accepted
  | ok location =>
    obtain rfl : location = path.place := eq_of_follow reached
    simp only [reached, bind, Except.bind] at accepted
    split at accepted
    · cases accepted
    · next free =>
      have open_ : tree.get? path.place ≠ some .directory := fun found => free (.inl found)
      refine ⟨open_, ?_, (Except.ok.inj accepted).symm⟩
      have dotless : path.steps.getLast? ≠ some ['.'] := by
        intro dotted
        obtain ⟨front, split⟩ := List.getLast?_eq_some_iff.mp dotted
        have stays : path.place = front.foldl step [] := by
          rw [Path.place, split, List.foldl_append, List.foldl_cons, List.foldl_nil, step_dot]
        rw [split] at reached
        apply open_
        rw [stays]
        exact directories_of_follow reached _ (end_mem_along [] front)
      have slashless : path.endsInSlash = false := Bool.eq_false_iff.mpr fun slash => free (.inr slash)
      simp [Path.namesFile, dotless, slashless]

theorem writeFile_of_directories {path : Path} (text : Text)
    (passable : ∀ location ∈ path.way, tree.get? location = some .directory)
    (named : path.namesFile = true) (free : tree.get? path.place ≠ some .directory) :
    tree.writeFile path text = .ok (tree.put path.place (.file (.text text))) := by
  simp only [Path.namesFile, Bool.and_eq_true, Bool.not_eq_true', bne_iff_ne, ne_eq] at named
  have reached : tree.follow [] path.steps = .ok path.place := by
    cases last : path.steps.getLast? with
    | none =>
      rw [List.getLast?_eq_none_iff] at last
      rw [Path.place, last]
      rfl
    | some name =>
      obtain ⟨front, split⟩ := List.getLast?_eq_some_iff.mp last
      have proper : name ≠ ['.'] := fun dot => named.2 (by rw [last, dot])
      have above : path.components.dropLast = front.filter (· ≠ ['.']) := by
        rw [Path.components, split, List.filter_append, List.filter_cons_of_pos (by simpa using proper),
          List.filter_nil, List.dropLast_concat]
      rw [Path.place, split]
      apply follow_of_directories
      intro location member
      apply passable
      rw [Path.way, above]
      exact mem_along_filter.mpr member
  rw [writeFile, resolve, reached]
  exact if_neg fun blocked => blocked.elim free (by rw [named.1]; exact Bool.false_ne_true)

theorem makeDirectories_way (tree : Tree) (path : Path) :
    Agrees (tree.makeDirectories path.components.reverse.tail) (tree.makeAll path.way) := by
  have agrees := tree.makeDirectories_agrees path.components.reverse.tail
  rw [List.tail_reverse, List.reverse_reverse] at agrees
  rw [List.tail_reverse]
  exact agrees

theorem write_of_clear {path : Path} (text : Text) (whole : (tree.makeAll path.way).1 = true)
    (named : path.namesFile = true)
    (free : (tree.makeAll path.way).2.get? path.place ≠ some .directory) :
    tree.write path text = (none, (tree.makeAll path.way).2.put path.place (.file (.text text))) := by
  obtain ⟨first, second⟩ := tree.makeDirectories_way path
  rw [write]
  cases made : tree.makeDirectories path.components.reverse.tail with
  | mk error next =>
    rw [made] at first second
    dsimp only at first second
    obtain rfl := first.mpr whole
    subst second
    simp only [writeFile_of_directories text (directories_of_makeAll whole) named free]

theorem write_of_blocked {path : Path} (text : Text)
    (blocked : ¬ ((tree.makeAll path.way).1 = true ∧ path.namesFile = true ∧
      (tree.makeAll path.way).2.get? path.place ≠ some .directory)) :
    ∃ error, tree.write path text = (some error, (tree.makeAll path.way).2) := by
  obtain ⟨first, second⟩ := tree.makeDirectories_way path
  rw [write]
  cases made : tree.makeDirectories path.components.reverse.tail with
  | mk error next =>
    rw [made] at first second
    dsimp only at first second
    subst second
    cases error with
    | some error => exact ⟨error, rfl⟩
    | none =>
      cases result : (tree.makeAll path.way).2.writeFile path text with
      | error error => exact ⟨error, by simp only [result]⟩
      | ok written =>
        obtain ⟨free, named, _⟩ := put_of_writeFile result
        exact absurd ⟨first.mp rfl, named, free⟩ blocked

theorem content?_write (tree : Tree) (path : Path) (text : Text) (location : Location)
    (changed : (tree.write path text).2.content? location ≠ tree.content? location) :
    (tree.write path text).1 = none ∧ location = path.place ∧
      (tree.write path text).2.get? location = some (.file (.text text)) := by
  have kept : (tree.makeAll path.way).2.content? location = tree.content? location := by
    rw [content?, content?, (tree.makeAll_spec path.way).2]
    by_cases new : location ∈ tree.reached path.way ∧ tree.get? location = none
    · rw [if_pos new, new.2]
    · rw [if_neg new]
  by_cases clear : (tree.makeAll path.way).1 = true ∧ path.namesFile = true ∧
      (tree.makeAll path.way).2.get? path.place ≠ some .directory
  · obtain ⟨whole, named, free⟩ := clear
    have below : path.place ≠ [] := by
      intro root
      rw [root] at free
      exact free (get?_root _)
    rw [write_of_clear text whole named free] at changed ⊢
    dsimp only at changed ⊢
    rw [get?_put _ below]
    by_cases here : location = path.place
    · exact ⟨rfl, here, if_pos here⟩
    · rw [content?, get?_put _ below, if_neg here, ← content?] at changed
      exact absurd kept changed
  · obtain ⟨error, failed⟩ := write_of_blocked text clear
    rw [failed] at changed
    exact absurd kept changed

end
end Tree
end TagCalls
