import TagCalls.Proofs.Run.Course
import TagCalls.Proofs.Run.Target
import TagCalls.Proofs.Workspace.Spread

/-!
Where the courses of the workers end. If results are kept apart, every course ends with the same tree as taking the
files one after the other, and no source has changed.
-/
namespace TagCalls.Run

def Finishes (job : Job) (tree : Tree) (files : List Path) (final : Tree) : Prop :=
  ∃ log, Course job tree files log final

structure Apart (job : Job) (tree : Tree) (files : List Path) : Prop where
  outputs : ∀ one ∈ files, ∀ two ∈ files, (job.output one).place = (job.output two).place → one = two
  inputs : ∀ one ∈ files, ∀ two ∈ files, (job.output one).place ≠ two.place
  ways : ∀ one ∈ files, ∀ two ∈ files, (job.output one).place ∈ (job.output two).way →
    tree.get? (job.output one).place ≠ none

def Steady (tree : Tree) (files : List Path) : Prop :=
  ∀ path ∈ files, ∀ location ∈ Tree.along [] path.steps,
    tree.get? location = some .directory ∨ location = path.place ∧ tree.get? location ≠ none

def dueWrites (job : Job) (tree : Tree) (files : List Path) : List (Path × Text) :=
  files.filterMap fun path => (job.result? tree path).map (job.output path, ·)

theorem mem_dueWrites {job : Job} {tree : Tree} {files : List Path} {write : Path × Text} :
    write ∈ dueWrites job tree files ↔
      ∃ path ∈ files, ∃ text, job.result? tree path = some text ∧ write = (job.output path, text) := by
  simp only [dueWrites, List.mem_filterMap, Option.map_eq_some_iff]
  constructor
  · rintro ⟨path, member, text, result, rfl⟩
    exact ⟨path, member, text, result, rfl⟩
  · rintro ⟨path, member, text, result, rfl⟩
    exact ⟨path, member, text, result, rfl⟩

theorem mem_dueWrites_between {job : Job} {tree : Tree} {before after : List Path} {path : Path}
    {write : Path × Text} :
    write ∈ dueWrites job tree (before ++ path :: after) ↔
      (∃ text, job.result? tree path = some text ∧ write = (job.output path, text)) ∨
        write ∈ dueWrites job tree (before ++ after) := by
  simp only [mem_dueWrites, List.mem_append, List.mem_cons, or_and_right, exists_or, exists_eq_left]
  exact or_left_comm

/-! ### One step -/

section
variable {job : Job} {start tree : Tree} {files : List Path}

theorem separate_dueWrites (apart : Apart job start files) : start.Separate (dueWrites job start files) where
  places := by
    intro one first two second same
    obtain ⟨path, member, text, result, rfl⟩ := mem_dueWrites.mp first
    obtain ⟨path', member', text', result', rfl⟩ := mem_dueWrites.mp second
    obtain rfl := apart.outputs path member path' member' same
    exact Option.some.inj (result.symm.trans result')
  ways := by
    intro one first two second through
    obtain ⟨path, member, text, result, rfl⟩ := mem_dueWrites.mp first
    obtain ⟨path', member', text', result', rfl⟩ := mem_dueWrites.mp second
    exact apart.ways path member path' member' through

theorem get?_steady (apart : Apart job start files) (steady : Steady start files) {written : List (Path × Text)}
    (due : written ⊆ dueWrites job start files) (spread : start.Spread written tree) {path : Path}
    (member : path ∈ files) :
    ∀ location ∈ Tree.along [] path.steps, tree.get? location = start.get? location := by
  intro location along
  apply spread.kept
  · intro write inside lands here
    obtain ⟨other, among, text, _, rfl⟩ := mem_dueWrites.mp (due inside)
    rcases steady path member location along with directory | ⟨last, _⟩
    · rw [← here] at directory
      exact lands.free directory
    · exact apart.inputs other among path member (here.trans last)
  · rintro ⟨missing, _⟩
    rcases steady path member location along with directory | ⟨_, found⟩
    · rw [missing] at directory
      cases directory
    · exact found missing

theorem result?_steady (apart : Apart job start files) (steady : Steady start files) {written : List (Path × Text)}
    (due : written ⊆ dueWrites job start files) (spread : start.Spread written tree) {path : Path}
    (member : path ∈ files) : job.result? tree path = job.result? start path := by
  rw [Job.result?, Job.result?, Job.read, Job.read, Tree.read_congr (get?_steady apart steady due spread member)]

/-- Of all results that are due some are written, some are held, and the others are those of files that wait. -/
def Pool.Sound (job : Job) (start : Tree) (files : List Path) (pool : Pool) : Prop :=
  pool.waiting ⊆ files ∧ ∃ written, start.Spread written pool.tree ∧
    ∀ write, write ∈ dueWrites job start files ↔
      write ∈ written ∨ write ∈ pool.held.map (fun item => (job.output item.path, item.text)) ∨
        write ∈ dueWrites job start pool.waiting

theorem sound_step (kept : job.printed = false) (apart : Apart job start files) (steady : Steady start files)
    {pool next : Pool} (step : pool.Step job next) (sound : pool.Sound job start files) :
    next.Sound job start files := by
  obtain ⟨known, written, spread, all⟩ := sound
  have due : written ⊆ dueWrites job start files := fun write member => (all write).mpr (.inl member)
  cases step with
  | @idle before after path held tree log report read =>
    have member : path ∈ files := known (List.mem_append_right before List.mem_cons_self)
    have nothing : job.result? start path = none := by
      rw [← result?_steady apart steady due spread member, Job.result?, read]
    refine ⟨fun other inside => known (between before path after inside), written, spread, ?_⟩
    intro write
    rw [all, mem_dueWrites_between, nothing]
    simp
  | @take before after path held tree log report text read =>
    have member : path ∈ files := known (List.mem_append_right before List.mem_cons_self)
    have result : job.result? start path = some text := by
      rw [← result?_steady apart steady due spread member, Job.result?, read]
    refine ⟨fun other inside => known (between before path after inside), written, spread, ?_⟩
    intro write
    rw [all, mem_dueWrites_between, result]
    simp [or_assoc, or_left_comm]
  | @write waiting before after item tree last log report emitted =>
    have here : (job.output item.path, item.text) ∈ dueWrites job start files := by
      apply (all _).mpr
      exact .inr (.inl (List.mem_map_of_mem (List.mem_append_right before List.mem_cons_self)))
    have separate : start.Separate ((job.output item.path, item.text) :: written) := by
      apply (separate_dueWrites apart).mono
      exact List.cons_subset.mpr ⟨here, due⟩
    refine ⟨known, (job.output item.path, item.text) :: written, ?_, ?_⟩
    · rw [tree_of_emit kept emitted]
      exact Tree.spread_write separate spread
    · intro write
      rw [all]
      simp [or_assoc, or_left_comm]

/-! ### Whole courses -/

theorem sound_initial (job : Job) (start : Tree) (files : List Path) :
    Pool.Sound job start files ⟨files, [], start, []⟩ := by
  refine ⟨List.Subset.refl _, [], Tree.spread_nil start, ?_⟩
  simp

theorem sound_run (kept : job.printed = false) (apart : Apart job start files) (steady : Steady start files)
    {pool : Pool} (course : Relation.ReflTransGen (Pool.Step job) ⟨files, [], start, []⟩ pool) :
    pool.Sound job start files := by
  induction course with
  | refl => exact sound_initial job start files
  | tail _ step ih => exact sound_step kept apart steady step ih

theorem spread_of_finishes (kept : job.printed = false) (apart : Apart job start files)
    (steady : Steady start files) {final : Tree} (finishes : Finishes job start files final) :
    ∃ written, start.Spread written final ∧ ∀ write, write ∈ dueWrites job start files ↔ write ∈ written := by
  obtain ⟨log, course⟩ := finishes
  obtain ⟨_, written, spread, all⟩ := sound_run kept apart steady course
  refine ⟨written, spread, ?_⟩
  intro write
  rw [all]
  simp [dueWrites]

theorem finishes_unique (kept : job.printed = false) (apart : Apart job start files) (steady : Steady start files)
    {final other : Tree} (first : Finishes job start files final) (second : Finishes job start files other)
    (location : Location) : final.get? location = other.get? location := by
  obtain ⟨written, spread, all⟩ := spread_of_finishes kept apart steady first
  obtain ⟨written', spread', all'⟩ := spread_of_finishes kept apart steady second
  exact Tree.spread_unique (fun write => (all write).symm.trans (all' write)) spread spread' location

theorem finishes_sources (kept : job.printed = false) (apart : Apart job start files) (steady : Steady start files)
    {final : Tree} (finishes : Finishes job start files final) {path : Path} (member : path ∈ files) :
    final.get? path.place = start.get? path.place := by
  obtain ⟨written, spread, all⟩ := spread_of_finishes kept apart steady finishes
  have due : written ⊆ dueWrites job start files := fun write inside => (all write).mpr inside
  exact get?_steady apart steady due spread member path.place (Tree.end_mem_along [] path.steps)

theorem finishes_result (kept : job.printed = false) (apart : Apart job start files) (steady : Steady start files)
    {final : Tree} (finishes : Finishes job start files final) {path : Path} {text : Text} (member : path ∈ files)
    (result : job.result? start path = some text) (lands : start.Lands (job.output path)) :
    final.get? (job.output path).place = some (.file (.text text)) := by
  obtain ⟨written, spread, all⟩ := spread_of_finishes kept apart steady finishes
  have due : (job.output path, text) ∈ written := by
    rw [← all, mem_dueWrites]
    exact ⟨path, member, text, result, rfl⟩
  exact spread.landed _ due lands

end
end TagCalls.Run
