import TagCalls.Proofs.Workspace.Tree

/-!
Many files written into one tree. If no two of them meet and none is on the way to another, what becomes of
each can be told from the tree before all of them, so that their order does not matter.
-/
namespace TagCalls.Tree

structure Lands (tree : Tree) (path : Path) : Prop where
  clear : ∀ location ∈ path.way, tree.isFile location = false
  named : path.namesFile = true
  free : tree.get? path.place ≠ some .directory

/-- A location where a directory has to be made for one of the files. -/
def Lacking (tree : Tree) (writes : List (Path × Text)) (location : Location) : Prop :=
  tree.get? location = none ∧ ∃ write ∈ writes, location ∈ tree.reached write.1.way

/-- What a tree looks like after some files were written into it. -/
structure Spread (start : Tree) (writes : List (Path × Text)) (tree : Tree) : Prop where
  landed : ∀ write ∈ writes, start.Lands write.1 → tree.get? write.1.place = some (.file (.text write.2))
  made : ∀ location, start.Lacking writes location → tree.get? location = some .directory
  kept : ∀ location, (∀ write ∈ writes, start.Lands write.1 → write.1.place ≠ location) →
    ¬ start.Lacking writes location → tree.get? location = start.get? location

/-- Files that do not meet: only one text for each place, and no place that is still free on the way to
another. -/
structure Separate (start : Tree) (writes : List (Path × Text)) : Prop where
  places : ∀ one ∈ writes, ∀ two ∈ writes, one.1.place = two.1.place → one.2 = two.2
  ways : ∀ one ∈ writes, ∀ two ∈ writes, one.1.place ∈ two.1.way → start.get? one.1.place ≠ none

theorem Separate.mono {start : Tree} {writes others : List (Path × Text)} (separate : Separate start writes)
    (subset : others ⊆ writes) : Separate start others where
  places := fun one first two second => separate.places one (subset first) two (subset second)
  ways := fun one first two second => separate.ways one (subset first) two (subset second)

theorem spread_nil (start : Tree) : Spread start [] start where
  landed := nofun
  made := fun _ lacking => nomatch lacking.2
  kept := fun _ _ _ => rfl

theorem mem_way_of_reached {tree : Tree} {path : Path} {location : Location}
    (member : location ∈ tree.reached path.way) : location ∈ path.way :=
  (List.takeWhile_prefix _).subset member

theorem reached_congr {tree other : Tree} {locations : List Location}
    (agree : ∀ location ∈ locations, tree.isFile location = other.isFile location) :
    tree.reached locations = other.reached locations := by
  induction locations with
  | nil => rfl
  | cons location rest ih =>
    rw [reached, reached, List.takeWhile_cons, List.takeWhile_cons, agree location List.mem_cons_self, ← reached,
      ← reached, ih fun other later => agree other (List.mem_cons_of_mem location later)]

theorem spread_unique {start tree other : Tree} {writes writes' : List (Path × Text)}
    (same : ∀ write, write ∈ writes ↔ write ∈ writes') (first : Spread start writes tree)
    (second : Spread start writes' other) (location : Location) : tree.get? location = other.get? location := by
  have lacking : start.Lacking writes location ↔ start.Lacking writes' location := by
    simp only [Lacking, same]
  by_cases landed : ∃ write ∈ writes, start.Lands write.1 ∧ write.1.place = location
  · obtain ⟨write, member, lands, rfl⟩ := landed
    rw [first.landed write member lands, second.landed write ((same write).mp member) lands]
  by_cases made : start.Lacking writes location
  · rw [first.made location made, second.made location (lacking.mp made)]
  have elsewhere : ∀ write ∈ writes, start.Lands write.1 → write.1.place ≠ location :=
    fun write member lands here => landed ⟨write, member, lands, here⟩
  rw [first.kept location elsewhere made,
    second.kept location (fun write member => elsewhere write ((same write).mpr member)) (mt lacking.mpr made)]

section
variable {start tree : Tree} {writes : List (Path × Text)} {write : Path × Text}

theorem spread_cases (spread : Spread start writes tree) (location : Location) :
    (∃ other ∈ writes, start.Lands other.1 ∧ other.1.place = location ∧
      tree.get? location = some (.file (.text other.2))) ∨
    (start.Lacking writes location ∧ tree.get? location = some .directory) ∨
    tree.get? location = start.get? location := by
  by_cases landed : ∃ other ∈ writes, start.Lands other.1 ∧ other.1.place = location
  · obtain ⟨other, member, lands, rfl⟩ := landed
    exact .inl ⟨other, member, lands, rfl, spread.landed other member lands⟩
  by_cases made : start.Lacking writes location
  · exact .inr (.inl ⟨made, spread.made location made⟩)
  · exact .inr (.inr (spread.kept location (fun other member lands here => landed ⟨other, member, lands, here⟩) made))

theorem isFile_eq_true_iff {location : Location} :
    tree.isFile location = true ↔ tree.get? location ≠ none ∧ tree.get? location ≠ some .directory := by
  rw [isFile]
  cases tree.get? location with
  | none => simp
  | some entry => cases entry <;> simp

variable (separate : Separate start (write :: writes)) (spread : Spread start writes tree)

include separate spread

theorem isFile_spread {location : Location} (passed : location ∈ write.1.way) :
    tree.isFile location = start.isFile location := by
  rw [Bool.eq_iff_iff, isFile_eq_true_iff, isFile_eq_true_iff]
  rcases spread_cases spread location with ⟨other, inside, lands, rfl, found⟩ | ⟨lacking, found⟩ | same
  · rw [found]
    have there := separate.ways other (List.mem_cons_of_mem write inside) write List.mem_cons_self passed
    exact iff_of_true ⟨nofun, nofun⟩ ⟨there, lands.free⟩
  · rw [found, lacking.1]
    simp
  · rw [same]

theorem reached_spread : tree.reached write.1.way = start.reached write.1.way :=
  reached_congr fun _ passed => isFile_spread separate spread passed

theorem place_spread :
    (tree.get? write.1.place = some .directory ↔ start.get? write.1.place = some .directory) ∧
      (write.1.place ∈ write.1.way → tree.get? write.1.place ≠ none) := by
  rcases spread_cases spread write.1.place with ⟨other, inside, lands, here, found⟩ | ⟨lacking, found⟩ | same
  · have free := lands.free
    rw [here] at free
    rw [found]
    exact ⟨iff_of_false nofun free, fun _ => nofun⟩
  · obtain ⟨missing, other, inside, through⟩ := lacking
    have there := separate.ways write List.mem_cons_self other (List.mem_cons_of_mem write inside)
      (mem_way_of_reached through)
    exact absurd missing there
  · rw [same]
    exact ⟨Iff.rfl, separate.ways write List.mem_cons_self write List.mem_cons_self⟩

theorem lands_spread :
    ((tree.makeAll write.1.way).1 = true ∧ write.1.namesFile = true ∧
      (tree.makeAll write.1.way).2.get? write.1.place ≠ some .directory) ↔ start.Lands write.1 := by
  obtain ⟨directory, present⟩ := place_spread separate spread
  obtain ⟨whole, result⟩ := tree.makeAll_spec write.1.way
  have untouched : (tree.makeAll write.1.way).2.get? write.1.place = tree.get? write.1.place := by
    rw [result]
    exact if_neg fun missing => present (mem_way_of_reached missing.1) missing.2
  rw [whole, untouched, ne_eq, directory]
  constructor
  · intro both
    refine ⟨fun location passed => ?_, both.2.1, both.2.2⟩
    rw [← isFile_spread separate spread passed]
    exact both.1 location passed
  · intro lands
    refine ⟨fun location passed => ?_, lands.named, lands.free⟩
    rw [isFile_spread separate spread passed]
    exact lands.clear location passed

theorem makeAll_spread (location : Location) :
    (∀ other ∈ writes, start.Lands other.1 → other.1.place = location →
      (tree.makeAll write.1.way).2.get? location = some (.file (.text other.2))) ∧
    (start.Lacking (write :: writes) location →
      (tree.makeAll write.1.way).2.get? location = some .directory) ∧
    ((∀ other ∈ writes, start.Lands other.1 → other.1.place ≠ location) →
      ¬ start.Lacking (write :: writes) location →
      (tree.makeAll write.1.way).2.get? location = start.get? location) := by
  have result := (tree.makeAll_spec write.1.way).2 location
  rw [reached_spread separate spread] at result
  refine ⟨?_, ?_, ?_⟩
  · intro other inside lands here
    have found := spread.landed other inside lands
    rw [here] at found
    rw [result, found]
    exact if_neg fun missing => nomatch missing.2
  · rintro ⟨missing, other, inside, through⟩
    rcases spread_cases spread location with ⟨former, among, lands, rfl, found⟩ | ⟨_, found⟩ | same
    · have way : former.1.place ∈ other.1.way := mem_way_of_reached through
      exact absurd missing (separate.ways former (List.mem_cons_of_mem write among) other inside way)
    · rw [result, found]
      exact if_neg fun missing => nomatch missing.2
    · rcases List.mem_cons.mp inside with rfl | earlier
      · rw [result, same]
        exact if_pos ⟨through, missing⟩
      · rw [spread.made location ⟨missing, other, earlier, through⟩] at same
        rw [missing] at same
        cases same
  · intro elsewhere enough
    have same : tree.get? location = start.get? location := by
      apply spread.kept location elsewhere
      rintro ⟨missing, other, inside, through⟩
      exact enough ⟨missing, other, List.mem_cons_of_mem write inside, through⟩
    rw [result, same]
    exact if_neg fun missing => enough ⟨missing.2, write, List.mem_cons_self, missing.1⟩

theorem spread_write : Spread start (write :: writes) (tree.write write.1 write.2).2 := by
  have made := makeAll_spread separate spread
  have lands_iff := lands_spread separate spread
  by_cases lands : start.Lands write.1
  · obtain ⟨whole, named, free⟩ := lands_iff.mpr lands
    have below : write.1.place ≠ [] := by
      intro root
      rw [root] at free
      exact free (get?_root _)
    rw [write_of_clear write.2 whole named free]
    have put := get?_put (tree.makeAll write.1.way).2 below (.file (.text write.2))
    refine ⟨?_, ?_, ?_⟩
    · intro other inside landed
      rw [put]
      by_cases here : other.1.place = write.1.place
      · rw [if_pos here]
        rcases List.mem_cons.mp inside with rfl | earlier
        · rfl
        · rw [separate.places other inside write List.mem_cons_self here]
      · rw [if_neg here]
        have earlier : other ∈ writes := (List.mem_cons.mp inside).resolve_left fun same => here (same ▸ rfl)
        exact (made other.1.place).1 other earlier landed rfl
    · intro location lacking
      rw [put, if_neg]
      · exact (made location).2.1 lacking
      · rintro rfl
        obtain ⟨missing, other, inside, through⟩ := lacking
        exact separate.ways write List.mem_cons_self other inside (mem_way_of_reached through) missing
    · intro location elsewhere enough
      rw [put, if_neg (elsewhere write List.mem_cons_self lands).symm]
      exact (made location).2.2 (fun other inside => elsewhere other (List.mem_cons_of_mem write inside)) enough
  · obtain ⟨error, failed⟩ := write_of_blocked write.2 (mt lands_iff.mp lands)
    rw [failed]
    refine ⟨?_, fun location => (made location).2.1, ?_⟩
    · intro other inside landed
      have earlier : other ∈ writes := (List.mem_cons.mp inside).resolve_left fun same => lands (same ▸ landed)
      exact (made other.1.place).1 other earlier landed rfl
    · intro location elsewhere enough
      exact (made location).2.2 (fun other inside => elsewhere other (List.mem_cons_of_mem write inside)) enough

end
end TagCalls.Tree
