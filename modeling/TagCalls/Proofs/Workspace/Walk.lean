import Mathlib.Data.List.Induction
import TagCalls.Proofs.Workspace.Path

/-!
Trees in which every entry stands once, under proper names and in a directory. In such a tree a walk
gives files only, and each can be read at the path that the walk gives it.
-/
namespace TagCalls.Tree

structure WellFormed (tree : Tree) : Prop where
  once : tree.entries.Pairwise fun one two => one.1 ≠ two.1
  proper : ∀ entry ∈ tree.entries, entry.1 ≠ [] ∧ ∀ name ∈ entry.1, Path.Proper name
  parents : ∀ entry ∈ tree.entries, tree.get? entry.1.dropLast = some .directory

section
variable {tree : Tree} {location : Location} {entry : Entry}

theorem find?_of_mem {entries : List (Location × Entry)} (once : entries.Pairwise fun one two => one.1 ≠ two.1)
    (member : (location, entry) ∈ entries) : find? location entries = some entry := by
  induction once with
  | nil => cases member
  | cons other _ ih =>
    rw [find?]
    rcases List.mem_cons.mp member with rfl | later
    · exact if_pos rfl
    · rw [if_neg (other _ later)]
      exact ih later

theorem mem_of_find? {entries : List (Location × Entry)} (found : find? location entries = some entry) :
    (location, entry) ∈ entries := by
  induction entries with
  | nil => cases found
  | cons old rest ih =>
    rw [find?] at found
    by_cases here : old.1 = location
    · rw [if_pos here] at found
      cases found
      exact here ▸ List.mem_cons_self
    · rw [if_neg here] at found
      exact List.mem_cons_of_mem old (ih found)

theorem get?_of_mem (formed : tree.WellFormed) (member : (location, entry) ∈ tree.entries) :
    tree.get? location = some entry := by
  rw [get?, if_neg (formed.proper _ member).1]
  exact find?_of_mem formed.once member

theorem mem_of_get? (below : location ≠ []) (found : tree.get? location = some entry) :
    (location, entry) ∈ tree.entries := by
  rw [get?, if_neg below] at found
  exact mem_of_find? found

theorem get?_above (formed : tree.WellFormed) {above : Location} {names : List Text} (filled : names ≠ [])
    (found : tree.get? (above ++ names) = some entry) : tree.get? above = some .directory := by
  induction names using List.reverseRecOn generalizing entry with
  | nil => exact absurd rfl filled
  | append_singleton names name ih =>
    have member := mem_of_get? (by simp) found
    have parent := formed.parents _ member
    rw [← List.append_assoc, List.dropLast_concat] at parent
    by_cases last : names = []
    · rw [last, List.append_nil] at parent
      exact parent
    · exact ih last parent

theorem follow_names (formed : tree.WellFormed) {top : Location} {names : List Text}
    (proper : ∀ name ∈ names, Path.Proper name) (found : tree.get? (top ++ names) = some entry) :
    tree.follow top names = .ok (top ++ names) := by
  induction names generalizing top with
  | nil => rw [List.append_nil]; rfl
  | cons name names ih =>
    have here := get?_above formed (List.cons_ne_nil name names) found
    have next := Path.step_of_proper top (proper name List.mem_cons_self)
    have shape : top ++ name :: names = (top ++ [name]) ++ names := by simp
    rw [shape] at found
    rw [follow, here]
    dsimp only
    rw [next, shape]
    exact ih (fun other member => proper other (List.mem_cons_of_mem name member)) found

theorem mem_filesBelow (formed : tree.WellFormed) {top : Location} {names : List Text}
    (member : names ∈ tree.filesBelow top) :
    (∀ name ∈ names, Path.Proper name) ∧ ∃ content, tree.get? (top ++ names) = some (.file content) := by
  rw [filesBelow, List.mem_mergeSort, List.mem_filterMap] at member
  obtain ⟨⟨location, entry⟩, inside, given⟩ := member
  cases entry with
  | directory => cases given
  | file content =>
    dsimp only at given
    split at given
    · next starts =>
      obtain ⟨rest, rfl⟩ := List.isPrefixOf_iff_prefix.mp starts
      rw [List.drop_left] at given
      cases given
      refine ⟨?_, content, get?_of_mem formed inside⟩
      intro name within
      exact (formed.proper _ inside).2 name (List.mem_append_right top within)
    · cases given

structure Walked (tree : Tree) (root : Path) (names : List Text) : Prop where
  proper : ∀ name ∈ names, Path.Proper name
  resolved : tree.resolve (Path.below root names) = .ok (Path.below root names).place
  file : ∃ content, tree.get? (Path.below root names).place = some (.file content)
  alone : names = [] → tree.walk root = [root]

theorem mem_walk (formed : tree.WellFormed) {root path : Path} (absolute : root.isAbsolute = true)
    (member : path ∈ tree.walk root) : ∃ names, path = Path.below root names ∧ tree.Walked root names := by
  have nonempty := Path.ne_nil_of_absolute absolute
  rw [walk] at member
  cases resolved : tree.resolve root with
  | error error =>
    rw [resolved] at member
    cases member
  | ok top =>
    obtain rfl : top = root.place := eq_of_follow resolved
    rw [resolved] at member
    dsimp only at member
    cases found : tree.get? root.place with
    | none =>
      rw [found] at member
      cases member
    | some entry =>
      rw [found] at member
      cases entry with
      | file content =>
        dsimp only at member
        split at member
        · cases member
        · next slashless =>
          obtain rfl := List.mem_singleton.mp member
          refine ⟨[], rfl, ⟨nofun, resolved, ⟨content, found⟩, ?_⟩⟩
          intro _
          rw [walk, resolved]
          dsimp only
          rw [found]
          exact if_neg slashless
      | directory =>
        obtain ⟨names, below, rfl⟩ := List.mem_map.mp member
        obtain ⟨proper, content, leaf⟩ := mem_filesBelow formed below
        have place := Path.place_below nonempty proper
        refine ⟨names, rfl, ⟨proper, ?_, ⟨content, place ▸ leaf⟩, ?_⟩⟩
        · rw [resolve, Path.steps_below nonempty proper, follow_append, ← resolve, resolved, place]
          exact follow_names formed proper leaf
        · rintro rfl
          rw [List.append_nil, found] at leaf
          cases leaf

theorem below_mem_walk {root : Path} {top : Location} {names : List Text} {content : Content}
    (resolved : tree.resolve root = .ok top) (directory : tree.get? top = some .directory)
    (member : (top ++ names, .file content) ∈ tree.entries) : Path.below root names ∈ tree.walk root := by
  rw [walk, resolved]
  dsimp only
  rw [directory]
  apply List.mem_map_of_mem
  rw [filesBelow, List.mem_mergeSort, List.mem_filterMap]
  refine ⟨_, member, ?_⟩
  have starts : top.isPrefixOf (top ++ names) = true := List.isPrefixOf_iff_prefix.mpr (List.prefix_append _ _)
  dsimp only
  rw [starts, List.drop_left]
  rfl

end
end TagCalls.Tree
