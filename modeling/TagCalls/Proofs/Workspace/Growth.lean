import TagCalls.Proofs.Workspace.Walk

/-!
What writing keeps. A tree stays well formed, because a new entry always goes into a directory, and nothing
that is there becomes something else: directories stay directories, and files stay files.
-/
namespace TagCalls.Tree

structure Extends (tree other : Tree) : Prop where
  directories : ∀ location, tree.get? location = some .directory → other.get? location = some .directory
  files : ∀ location content, tree.get? location = some (.file content) →
    ∃ content, other.get? location = some (.file content)

theorem Extends.refl (tree : Tree) : Extends tree tree := ⟨fun _ found => found, fun _ content found => ⟨content, found⟩⟩

theorem Extends.trans {tree other last : Tree} (first : Extends tree other) (second : Extends other last) :
    Extends tree last where
  directories location found := second.directories location (first.directories location found)
  files location content found :=
    (first.files location content found).elim fun content found => second.files location content found

/-- A place for an entry: the root, or proper names in a directory. -/
def Ready (tree : Tree) (location : Location) : Prop :=
  location ≠ [] → (∀ name ∈ location, Path.Proper name) ∧ tree.get? location.dropLast = some .directory

section
variable {tree : Tree} {location : Location} {entry : Entry}

/-! ### Putting an entry -/

theorem mem_replace {entries : List (Location × Entry)} {old : Location × Entry}
    (member : old ∈ replace location entry entries) : old = (location, entry) ∨ old ∈ entries := by
  induction entries with
  | nil => exact .inl (List.mem_singleton.mp member)
  | cons first rest ih =>
    rw [replace] at member
    split at member
    · exact (List.mem_cons.mp member).imp id (List.mem_cons_of_mem first)
    · rcases List.mem_cons.mp member with rfl | later
      · exact .inr List.mem_cons_self
      · exact (ih later).imp id (List.mem_cons_of_mem first)

theorem once_replace {entries : List (Location × Entry)} (once : entries.Pairwise fun one two => one.1 ≠ two.1) :
    (replace location entry entries).Pairwise fun one two => one.1 ≠ two.1 := by
  induction once with
  | nil => exact List.pairwise_singleton _ _
  | @cons first rest others once ih =>
    rw [replace]
    split
    · next here => exact .cons (fun old member => here ▸ others old member) once
    · next elsewhere =>
      refine .cons ?_ ih
      intro old member
      rcases mem_replace member with rfl | later
      · exact elsewhere
      · exact others old later

theorem wellFormed_put (formed : tree.WellFormed) (below : location ≠ []) (ready : tree.Ready location)
    (kept : tree.get? location = some .directory → entry = .directory) : (tree.put location entry).WellFormed where
  once := once_replace formed.once
  proper old member := by
    rcases mem_replace member with rfl | before
    · exact ⟨below, (ready below).1⟩
    · exact formed.proper old before
  parents old member := by
    rw [get?_put tree below]
    have parent : tree.get? old.1.dropLast = some .directory := by
      rcases mem_replace member with rfl | before
      · exact (ready below).2
      · exact formed.parents old before
    split
    · next here => rw [kept (here ▸ parent)]
    · exact parent

theorem ready_of_get? (formed : tree.WellFormed) (found : tree.get? location = some entry) :
    tree.Ready location := by
  intro below
  have member := mem_of_get? below found
  exact ⟨(formed.proper _ member).2, formed.parents _ member⟩

theorem directory_above (formed : tree.WellFormed) (found : tree.get? location = some .directory) :
    tree.get? location.dropLast = some .directory := by
  by_cases root : location = []
  · rw [root]
    exact get?_root tree
  · exact (ready_of_get? formed found root).2

theorem ready_step (formed : tree.WellFormed) {here : Location} {name : Text} (component : Path.Component name)
    (found : tree.get? here = some .directory) : tree.Ready (step here name) := by
  by_cases up : name = "..".toList
  · have above : step here name = here.dropLast := by
      rw [up]
      rfl
    rw [above]
    exact ready_of_get? formed (directory_above formed found)
  · have proper : Path.Proper name := ⟨component, up⟩
    intro _
    rw [Path.step_of_proper here proper, List.dropLast_concat]
    refine ⟨?_, found⟩
    intro other member
    rcases List.mem_append.mp member with outer | inner
    · have below : here ≠ [] := List.ne_nil_of_mem outer
      exact (ready_of_get? formed found below).1 other outer
    · rw [List.mem_singleton.mp inner]
      exact proper

/-! ### Making directories -/

theorem wellFormed_makeAll {here : Location} {names : List Text} (components : ∀ name ∈ names, Path.Component name)
    (formed : tree.WellFormed) (ready : tree.Ready here) : (tree.makeAll (along here names)).2.WellFormed := by
  induction names generalizing tree here with
  | nil =>
    rw [along, makeAll]
    cases found : tree.get? here with
    | none => exact wellFormed_put formed (ne_root_of_none found) ready fun _ => rfl
    | some entry => cases entry <;> exact formed
  | cons name names ih =>
    obtain ⟨first, rest⟩ := List.forall_mem_cons.mp components
    rw [along, makeAll]
    cases found : tree.get? here with
    | none =>
      have made : (tree.put here .directory).get? here = some .directory := by
        rw [get?_put tree (ne_root_of_none found), if_pos rfl]
      have next := wellFormed_put formed (ne_root_of_none found) ready fun _ => rfl
      exact ih rest next (ready_step next first made)
    | some entry =>
      cases entry with
      | file content => exact formed
      | directory => exact ih rest formed (ready_step formed first found)

theorem extends_makeAll (tree : Tree) (locations : List Location) : Extends tree (tree.makeAll locations).2 := by
  have result := (tree.makeAll_spec locations).2
  constructor
  · intro location found
    rw [result, found]
    simp
  · intro location content found
    rw [result, found]
    simp

/-! ### Writing -/

theorem component_of_mem_way {path : Path} {name : Text} (member : name ∈ path.components.dropLast) :
    Path.Component name := Path.component_of_mem (List.dropLast_subset _ member)

theorem ready_place (formed : tree.WellFormed) {path : Path}
    (passable : ∀ location ∈ path.way, tree.get? location = some .directory) : tree.Ready path.place := by
  rw [Path.place_eq_components]
  rcases List.eq_nil_or_concat path.components with empty | ⟨front, last, split⟩
  · rw [empty]
    exact fun below => absurd rfl below
  · rw [List.concat_eq_append] at split
    have component : Path.Component last := Path.component_of_mem (by rw [split]; simp)
    have above : tree.get? (front.foldl step []) = some .directory := by
      apply passable
      rw [Path.way, split, List.dropLast_concat]
      exact end_mem_along [] front
    rw [split, List.foldl_append]
    exact ready_step formed component above

theorem write_cases (tree : Tree) (path : Path) (text : Text) :
    (∃ error, tree.write path text = (some error, (tree.makeAll path.way).2)) ∨
      (∀ location ∈ path.way, (tree.makeAll path.way).2.get? location = some .directory) ∧
      (tree.makeAll path.way).2.get? path.place ≠ some .directory ∧
      tree.write path text = (none, (tree.makeAll path.way).2.put path.place (.file (.text text))) := by
  by_cases clear : (tree.makeAll path.way).1 = true ∧ path.namesFile = true ∧
      (tree.makeAll path.way).2.get? path.place ≠ some .directory
  · obtain ⟨whole, named, free⟩ := clear
    exact .inr ⟨directories_of_makeAll whole, free, write_of_clear text whole named free⟩
  · exact .inl (write_of_blocked text clear)

theorem ne_root_of_free (free : tree.get? location ≠ some .directory) : location ≠ [] := by
  intro root
  rw [root] at free
  exact free (get?_root tree)

theorem wellFormed_write (formed : tree.WellFormed) (path : Path) (text : Text) :
    (tree.write path text).2.WellFormed := by
  have made : (tree.makeAll path.way).2.WellFormed :=
    wellFormed_makeAll (fun _ => component_of_mem_way) formed fun root => absurd rfl root
  rcases tree.write_cases path text with ⟨error, failed⟩ | ⟨passable, free, done⟩
  · rw [failed]
    exact made
  · rw [done]
    exact wellFormed_put made (ne_root_of_free free) (ready_place made passable) fun found => absurd found free

theorem extends_write (tree : Tree) (path : Path) (text : Text) : Extends tree (tree.write path text).2 := by
  have made := tree.extends_makeAll path.way
  rcases tree.write_cases path text with ⟨error, failed⟩ | ⟨_, free, done⟩
  · rw [failed]
    exact made
  · rw [done]
    have below := ne_root_of_free free
    refine made.trans ⟨?_, ?_⟩
    · intro location found
      rw [get?_put _ below, if_neg]
      · exact found
      · rintro rfl
        exact free found
    · intro location content found
      rw [get?_put _ below]
      split
      · exact ⟨.text text, rfl⟩
      · exact ⟨content, found⟩

end
end TagCalls.Tree
