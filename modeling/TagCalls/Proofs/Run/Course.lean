import Mathlib.Logic.Relation
import TagCalls.Proofs.Run.Result

/-!
Files that are taken by several workers. A worker reads a file and later writes what came of it, and the
workers may get ahead of each other in every way. In every such course each file is taken once, its report has an
error exactly if it is in trouble, and only results that are due are written.
-/
namespace TagCalls.Run

/-- A file that has been read: the tree that it was found in, its report so far, and the text to be written. -/
structure Held where
  path : Path
  found : Tree
  report : FileReport
  text : Text

/-- A file that is done with: the trees that it was found in and that its result was written to, and its report. -/
structure LogEntry where
  path : Path
  found : Tree
  left : Tree
  report : FileReport

structure Pool where
  waiting : List Path
  held : List Held
  tree : Tree
  log : List LogEntry := []

/-- What a worker can do next: read a file of which nothing comes, read one with a result, or write a result. -/
inductive Pool.Step (job : Job) : Pool → Pool → Prop
  | idle {before after : List Path} {path : Path} {held : List Held} {tree : Tree} {log : List LogEntry}
      {report : FileReport} : job.read tree path = (report, none) →
      Step job ⟨before ++ path :: after, held, tree, log⟩
        ⟨before ++ after, held, tree, log ++ [⟨path, tree, tree, report⟩]⟩
  | take {before after : List Path} {path : Path} {held : List Held} {tree : Tree} {log : List LogEntry}
      {report : FileReport} {text : Text} : job.read tree path = (report, some text) →
      Step job ⟨before ++ path :: after, held, tree, log⟩
        ⟨before ++ after, ⟨path, tree, report, text⟩ :: held, tree, log⟩
  | write {waiting : List Path} {before after : List Held} {item : Held} {tree next : Tree} {log : List LogEntry}
      {report : FileReport} : emit job tree (job.output item.path) item.report item.text = (report, next) →
      Step job ⟨waiting, before ++ item :: after, tree, log⟩
        ⟨waiting, before ++ after, next, log ++ [⟨item.path, item.found, tree, report⟩]⟩

/-- A course of the workers that takes all files and writes all results. -/
def Course (job : Job) (tree : Tree) (files : List Path) (log : List LogEntry) (final : Tree) : Prop :=
  Relation.ReflTransGen (Pool.Step job) ⟨files, [], tree, []⟩ ⟨[], [], final, log⟩

theorem between {α : Type} (before : List α) (item : α) (after : List α) : before ++ after ⊆ before ++ item :: after :=
  ((List.sublist_cons_self item after).append_left before).subset

/-! ### What every course accounts for -/

/-- Every file waits, is held or is logged; the log tells which files were in trouble, and which of them changed the
tree. -/
structure Pool.Accounted (job : Job) (start : Tree) (files : List Path) (pool : Pool) : Prop where
  files : (pool.waiting ++ (pool.held.map (·.path) ++ pool.log.map (·.path))).Perm files
  held : ∀ item ∈ pool.held, job.read item.found item.path = (item.report, some item.text)
  log : ∀ entry ∈ pool.log,
    HasError entry.report.diagnostics ↔ Trouble job entry.found entry.left entry.path
  changed : ∀ location, pool.tree.content? location ≠ start.content? location →
    job.printed = false ∧ ∃ entry ∈ pool.log, ∃ text, Due job entry.found entry.path text ∧
      location = (job.output entry.path).place ∧ pool.tree.content? location = some (.text text)

section
variable {job : Job} {start : Tree} {files : List Path}

theorem accounted_initial (job : Job) (start : Tree) (files : List Path) :
    Pool.Accounted job start files ⟨files, [], start, []⟩ where
  files := by simp
  held _ member := absurd member List.not_mem_nil
  log _ member := absurd member List.not_mem_nil
  changed _ changed := absurd rfl changed

theorem perm_moved (front back between behind : List Path) (path : Path) :
    (front ++ back ++ between ++ path :: behind).Perm (front ++ path :: (back ++ between ++ behind)) := by
  have last : (front ++ back ++ between ++ path :: behind).Perm (path :: (front ++ back ++ between ++ behind)) :=
    List.perm_middle
  have first : (front ++ path :: (back ++ between ++ behind)).Perm (path :: (front ++ (back ++ between ++ behind))) :=
    List.perm_middle
  rw [← List.append_assoc, ← List.append_assoc] at first
  exact last.trans first.symm

theorem accounted_step {pool next : Pool} (step : pool.Step job next) (accounted : pool.Accounted job start files) :
    next.Accounted job start files := by
  obtain ⟨all, held, log, changed⟩ := accounted
  cases step with
  | @idle before after path items tree entries report read =>
    refine ⟨?_, held, ?_, ?_⟩
    · have moved := perm_moved before after (items.map (·.path) ++ entries.map (·.path)) [] path
      apply List.Perm.trans _ all
      simpa using moved
    · intro entry member
      rcases List.mem_append.mp member with earlier | last
      · exact log entry earlier
      · obtain rfl := List.mem_singleton.mp last
        exact hasError_idle read
    · intro location differs
      obtain ⟨kept, entry, member, due⟩ := changed location differs
      exact ⟨kept, entry, List.mem_append_left _ member, due⟩
  | @take before after path items tree entries report text read =>
    refine ⟨?_, ?_, log, changed⟩
    · have moved := perm_moved before after [] (items.map (·.path) ++ entries.map (·.path)) path
      apply List.Perm.trans _ all
      simpa using moved
    · intro item member
      rcases List.mem_cons.mp member with rfl | earlier
      · exact read
      · exact held item earlier
  | @write waiting before after item tree last entries report emitted =>
    have read := held item (List.mem_append_right before List.mem_cons_self)
    have due : Due job item.found item.path item.text := by
      rw [← result?_eq_some_iff, Job.result?, read]
    refine ⟨?_, ?_, ?_, ?_⟩
    · have moved := perm_moved (waiting ++ before.map (·.path)) (after.map (·.path)) (entries.map (·.path)) [] item.path
      apply List.Perm.trans _ all
      simpa using moved
    · intro other member
      exact held other (between before item after member)
    · intro entry member
      rcases List.mem_append.mp member with earlier | this
      · exact log entry earlier
      · obtain rfl := List.mem_singleton.mp this
        have told := @hasError_written job item.found tree item.path item.report item.text read
        rw [emitted] at told
        exact told
    · intro location differs
      have next : (emit job tree (job.output item.path) item.report item.text).2 = last := by rw [emitted]
      by_cases here : last.content? location = tree.content? location
      · -- the text at the location is that of an earlier result
        rw [here] at differs
        obtain ⟨kept, entry, member, text, due, place, holds⟩ := changed location differs
        exact ⟨kept, entry, List.mem_append_left _ member, text, due, place, here.trans holds⟩
      · rw [← next] at here ⊢
        obtain ⟨kept, place, holds⟩ := emit_changed here
        exact ⟨kept, _, List.mem_append_right _ List.mem_cons_self, item.text, due, place, holds⟩

theorem accounted_run {pool last : Pool} (course : Relation.ReflTransGen (Pool.Step job) pool last)
    (accounted : pool.Accounted job start files) : last.Accounted job start files := by
  induction course with
  | refl => exact accounted
  | tail _ step ih => exact accounted_step step ih

/-! ### One file after the other -/

def Pool.behind (log : List LogEntry) (pool : Pool) : Pool := { pool with log := log ++ pool.log }

theorem step_behind {pool next : Pool} (log : List LogEntry) (step : pool.Step job next) :
    (pool.behind log).Step job (next.behind log) := by
  cases step with
  | idle read =>
    rw [Pool.behind, Pool.behind, ← List.append_assoc]
    exact .idle read
  | take read => exact .take read
  | write emitted =>
    rw [Pool.behind, Pool.behind, ← List.append_assoc]
    exact .write emitted

theorem run_behind {pool last : Pool} (log : List LogEntry) (course : Relation.ReflTransGen (Pool.Step job) pool last) :
    Relation.ReflTransGen (Pool.Step job) (pool.behind log) (last.behind log) :=
  course.lift (Pool.behind log) fun _ _ => step_behind log

theorem course_processFile (job : Job) (tree : Tree) (path : Path) (files : List Path) :
    Relation.ReflTransGen (Pool.Step job) ⟨path :: files, [], tree, []⟩
      ⟨files, [], (processFile job tree path).2, [⟨path, tree, tree, (processFile job tree path).1⟩]⟩ := by
  rw [processFile_eq]
  cases read : job.read tree path with
  | mk report result =>
    cases result with
    | none => exact .single (@Pool.Step.idle job [] files path [] tree [] report read)
    | some text =>
      have take := @Pool.Step.take job [] files path [] tree [] report text read
      have write := @Pool.Step.write job files [] [] ⟨path, tree, report, text⟩ tree _ [] _ rfl
      exact .head take (.single write)

def inTurn (job : Job) : Tree → List Path → List LogEntry
  | _, [] => []
  | tree, path :: files =>
    ⟨path, tree, tree, (processFile job tree path).1⟩ :: inTurn job (processFile job tree path).2 files

theorem reports_inTurn (job : Job) (tree : Tree) (files : List Path) :
    (inTurn job tree files).map (·.report) = (processFiles job tree files).1 := by
  induction files generalizing tree with
  | nil => rfl
  | cons path files ih =>
    rw [inTurn, List.map_cons, ih]
    rfl

theorem course_processFiles (job : Job) (tree : Tree) (files : List Path) :
    Course job tree files (inTurn job tree files) (processFiles job tree files).2 := by
  induction files generalizing tree with
  | nil => exact .refl
  | cons path files ih =>
    exact (course_processFile job tree path files).trans (run_behind [_] (ih (processFile job tree path).2))

end
end TagCalls.Run
