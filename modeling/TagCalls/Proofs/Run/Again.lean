import TagCalls.Proofs.Run.Apart
import TagCalls.Proofs.Workspace.Growth

/-!
Running twice. Results are never sources of the next run: a script's result has another extension, a page's
result beside its source has an extension that is ignored, and an output directory is ignored as a whole if the
glob made from its name is read as that name. Main statement: `written_not_collected`.
-/
namespace TagCalls.Run

/-- A step of the workers that writes the file at a location. -/
inductive Pool.Writes (job : Job) (location : Location) : Pool → Pool → Prop
  | written {waiting : List Path} {before after : List Held} {item : Held} {tree next : Tree} {log : List LogEntry} :
      tree.write (job.output item.path) item.text = (none, next) → (job.output item.path).place = location →
      Writes job location ⟨waiting, before ++ item :: after, tree, log⟩
        ⟨waiting, before ++ after, next, log ++ [⟨item.path, item.found, tree, item.report⟩]⟩

/-- A course of the workers that takes all files and writes all results, and among them the file at a location. -/
def Written (job : Job) (tree : Tree) (files : List Path) (final : Tree) (location : Location) : Prop :=
  ∃ pool next log, Relation.ReflTransGen (Pool.Step job) ⟨files, [], tree, []⟩ pool ∧
    pool.Writes job location next ∧ Relation.ReflTransGen (Pool.Step job) next ⟨[], [], final, log⟩

/-! ### What every course keeps -/

/-- Only results of the files are held, and the tree grows in good form. -/
structure Pool.Grown (start : Tree) (files : List Path) (pool : Pool) : Prop where
  waiting : pool.waiting ⊆ files
  held : ∀ item ∈ pool.held, item.path ∈ files
  formed : pool.tree.WellFormed
  grows : start.Extends pool.tree

section
variable {job : Job} {start : Tree} {files : List Path}

theorem grown_initial (formed : start.WellFormed) : Pool.Grown start files ⟨files, [], start, []⟩ where
  waiting := List.Subset.refl files
  held _ member := absurd member List.not_mem_nil
  formed := formed
  grows := .refl start

theorem grown_step (kept : job.printed = false) {pool next : Pool} (step : pool.Step job next)
    (grown : pool.Grown start files) : next.Grown start files := by
  obtain ⟨known, held, formed, grows⟩ := grown
  cases step with
  | @idle before after path _ _ _ _ _ =>
    exact ⟨fun other inside => known (between before path after inside), held, formed, grows⟩
  | @take before after path _ _ _ _ _ _ =>
    refine ⟨fun other inside => known (between before path after inside), ?_, formed, grows⟩
    intro item member
    rcases List.mem_cons.mp member with rfl | earlier
    · exact known (List.mem_append_right before List.mem_cons_self)
    · exact held item earlier
  | @write waiting before after item tree last _ _ emitted =>
    obtain rfl := tree_of_emit kept emitted
    refine ⟨known, ?_, Tree.wellFormed_write formed _ _, grows.trans (tree.extends_write _ _)⟩
    intro other member
    exact held other (between before item after member)

theorem grown_run (kept : job.printed = false) {pool last : Pool}
    (course : Relation.ReflTransGen (Pool.Step job) pool last) (grown : pool.Grown start files) :
    last.Grown start files := by
  induction course with
  | refl => exact grown
  | tail _ step ih => exact grown_step kept step ih

theorem step_of_writes (kept : job.printed = false) {location : Location} {pool next : Pool}
    (writes : pool.Writes job location next) : pool.Step job next := by
  cases writes with
  | @written _ _ _ item _ _ _ accepted _ => exact .write (emit_of_write item.report kept accepted)

theorem writes_behind {location : Location} {pool next : Pool} (log : List LogEntry)
    (writes : pool.Writes job location next) : (pool.behind log).Writes job location (next.behind log) := by
  cases writes with
  | written accepted place =>
    rw [Pool.behind, Pool.behind, ← List.append_assoc]
    exact .written accepted place

theorem output_of_written (kept : job.printed = false) {final : Tree} {location : Location} (formed : start.WellFormed)
    (written : Written job start files final location) :
    (∃ path ∈ files, (job.output path).place = location) ∧ final.WellFormed ∧ start.Extends final := by
  obtain ⟨pool, next, log, before, writes, after⟩ := written
  have there := grown_run kept before (grown_initial formed)
  have last := grown_run kept after (grown_step kept (step_of_writes kept writes) there)
  refine ⟨?_, last.formed, last.grows⟩
  cases writes with
  | @written _ front _ item _ _ _ _ place =>
    exact ⟨item.path, there.held item (List.mem_append_right front List.mem_cons_self), place⟩

end

section
variable {job : Job} (tree : Tree) (files : List Path)

theorem written_first (kept : job.printed = false) {path : Path} {text : Text}
    (result : job.result? tree path = some text) (accepted : (tree.write (job.output path) text).1 = none) :
    Written job tree (path :: files) (processFiles job tree (path :: files)).2 (job.output path).place := by
  have take := @Pool.Step.take job [] files path [] tree [] _ text (Prod.ext rfl result)
  have last : (tree.write (job.output path) text).2 = (processFile job tree path).2 := by
    rw [tree_processFile, result, kept]
    rfl
  have write := @Pool.Writes.written job _ files [] [] ⟨path, tree, (job.read tree path).1, text⟩ tree
    (processFile job tree path).2 [] (Prod.ext accepted last) rfl
  exact ⟨_, _, _, .single take, write, run_behind [_] (course_processFiles job (processFile job tree path).2 files)⟩

theorem written_of_changed (kept : job.printed = false) (location : Location)
    (changed : (processFiles job tree files).2.content? location ≠ tree.content? location) :
    Written job tree files (processFiles job tree files).2 location := by
  induction files generalizing tree with
  | nil => exact absurd rfl changed
  | cons path files ih =>
    have split : (processFiles job tree (path :: files)).2 =
        (processFiles job (processFile job tree path).2 files).2 := rfl
    by_cases later : (processFiles job tree (path :: files)).2.content? location =
        (processFile job tree path).2.content? location
    · -- no other file has changed it, so the first one has
      rw [later, tree_processFile] at changed
      cases result : job.result? tree path with
      | none =>
        rw [result] at changed
        exact absurd rfl changed
      | some text =>
        rw [result, kept] at changed
        obtain ⟨accepted, rfl, _⟩ := tree.content?_write (job.output path) text location changed
        exact written_first tree files kept result accepted
    · rw [split] at later ⊢
      obtain ⟨pool, next, log, before, writes, after⟩ := ih _ later
      exact ⟨_, _, _, (course_processFile job tree path files).trans (run_behind [_] before),
        writes_behind [_] writes, run_behind [_] after⟩

end

/-! ### The workspace in both runs -/

section
variable {tree other : Tree} {root : Path}

theorem file_of_alone (source : Source tree root) (alone : source.names = []) :
    ∃ content, tree.get? root.place = some (.file content) := by
  have found := source.walked.file
  rw [alone] at found
  exact found

theorem directory_of_names (formed : tree.WellFormed) (absolute : root.isAbsolute = true) (source : Source tree root)
    (filled : source.names ≠ []) : tree.get? root.place = some .directory := by
  obtain ⟨content, found⟩ := source.walked.file
  rw [Path.place_below (Path.ne_nil_of_absolute absolute) source.walked.proper] at found
  exact Tree.get?_above formed filled found

theorem alone_iff_of_grown (formed : tree.WellFormed) (formed' : other.WellFormed) (grows : tree.Extends other)
    (absolute : root.isAbsolute = true) (one : Source tree root) (two : Source other root) :
    one.names = [] ↔ two.names = [] := by
  constructor
  · intro alone
    by_contra filled
    obtain ⟨content, file⟩ := file_of_alone one alone
    obtain ⟨content', file'⟩ := grows.files _ content file
    rw [directory_of_names formed' absolute two filled] at file'
    cases file'
  · intro alone
    by_contra filled
    obtain ⟨content, file⟩ := file_of_alone two alone
    rw [grows.directories _ (directory_of_names formed absolute one filled)] at file
    cases file

end

theorem workspace_of_collects {start : Start} {final : Tree} {arguments : Arguments} {plan again : Plan}
    {globs globs' : List Glob} (first : Collects start arguments plan globs)
    (second : Collects { start with tree := final } arguments again globs') : again.workspace = plan.workspace := by
  have root : again.workspace.root = plan.workspace.root := by rw [second.root, first.root]
  have outDir : again.workspace.outDir = plan.workspace.outDir := by rw [second.outDir, first.outDir, root]
  calc
    again.workspace = ⟨again.workspace.root, again.workspace.outDir⟩ := rfl
    _ = ⟨plan.workspace.root, plan.workspace.outDir⟩ := by rw [root, outDir]

/-- What a run creates or changes is written in its course. No file that is written, in whatever order the workers
come, is a source of the next run with the same arguments, if the output directory is seen from the workspace as
names joined by slashes and no name has a bracket, a brace or a backslash. -/
theorem written_not_collected (checker : Checker) (start : Start) (arguments : Arguments) (outcome : Outcome)
    (formed : start.tree.WellFormed) (absolute : start.directory.isAbsolute = true)
    (unnamed : arguments.paths = []) (kept : arguments.stdout = false)
    (spelled : ∀ outDir, arguments.outDir = some outDir →
      Spelled (start.directory.join arguments.workspace) ((start.directory.join arguments.workspace).join outDir))
    (ran : run checker start arguments = .ok outcome) :
    ∃ plan, Run.plan start arguments = .ok plan ∧
      (∀ location, outcome.tree.content? location ≠ start.tree.content? location →
        Written (plan.job arguments checker) start.tree plan.files outcome.tree location) ∧
      ∀ final again location, Written (plan.job arguments checker) start.tree plan.files final location →
        Run.plan { start with tree := final } arguments = .ok again →
        ∀ path ∈ again.files, path.place ≠ location := by
  rw [run] at ran
  cases planned : Run.plan start arguments with
  | error fatal =>
    rw [planned] at ran
    cases ran
  | ok plan =>
    rw [planned] at ran
    cases ran
    refine ⟨plan, rfl, @written_of_changed (plan.job arguments checker) start.tree plan.files kept, ?_⟩
    intro final again location written replanned path member here
    obtain ⟨globs, collects⟩ := collects_of_plan unnamed planned
    obtain ⟨globs', collects'⟩ := collects_of_plan unnamed replanned
    obtain ⟨⟨source, taken, place⟩, formed', grows⟩ :=
      @output_of_written (plan.job arguments checker) _ _ kept _ _ formed written
    have same := workspace_of_collects collects collects'
    have rooted : Rooted (plan.job arguments checker).workspace := rooted_of_collects absolute collects
    have read : ignores plan.workspace again.settings.ignore = .ok globs' := same ▸ collects'.read
    have second : path ∈ collect final plan.workspace globs' := same ▸ collects'.files ▸ member
    have found : ∃ two : Source final plan.workspace.root, two.path = path :=
      same ▸ @exists_source { start with tree := final } arguments again globs' formed' absolute collects' path member
    obtain ⟨one, rfl⟩ := exists_source formed absolute collects taken
    obtain ⟨two, rfl⟩ := found
    have alike := alone_iff_of_grown formed formed' grows rooted.root one two
    cases given : plan.workspace.outDir with
    | none => exact ne_source_beside rooted read alike.mpr second given (place.trans here.symm)
    | some outDir =>
      have seen : Spelled plan.workspace.root outDir := by
        rw [collects.outDir, Option.map_eq_some_iff] at given
        obtain ⟨text, passed, rfl⟩ := given
        rw [collects.root]
        exact spelled text passed
      exact ne_source_in_outDir rooted read alike.mp second given seen (place.trans here.symm)

/-! ### A page with an empty script -/

theorem written_of_single {checker : Checker} {start : Start} {arguments : Arguments} {plan : Plan} {path : Path}
    {text : Text} {next : Tree} (kept : arguments.stdout = false) (planned : Run.plan start arguments = .ok plan)
    (single : plan.files = [path]) (result : (plan.job arguments checker).result? start.tree path = some text)
    (accepted : start.tree.write ((plan.job arguments checker).output path) text = (none, next)) :
    ∃ outcome, run checker start arguments = .ok outcome ∧ outcome.tree = next ∧
      Written (plan.job arguments checker) start.tree plan.files outcome.tree
        ((plan.job arguments checker).output path).place := by
  have printed : (plan.job arguments checker).printed = false := kept
  have last : (processFiles (plan.job arguments checker) start.tree [path]).2 = next :=
    calc
      _ = (processFile (plan.job arguments checker) start.tree path).2 := rfl
      _ = (start.tree.write ((plan.job arguments checker).output path) text).2 := by
        rw [tree_processFile, result]
        simp [printed]
      _ = next := by rw [accepted]
  rw [run, planned]
  refine ⟨_, rfl, ?_, ?_⟩
  · rw [← single] at last
    exact last
  · dsimp only
    rw [single]
    exact written_first start.tree [] printed result (by rw [accepted])

def emptyPage : Text := "<script type=text/jsx></script>".toList

def pageStart : Start where
  tree := ⟨[(["w".toList], .directory), (["w".toList, "a.html".toList], .file (.text emptyPage))]⟩
  directory := "/w".toList

def intoDirectory (outDir : Path) : Arguments where
  outDir := some outDir

def loadedPage : Text :=
  "<script data-transformed=\"true\" type=text/jsx></script>\n<script>\n\n</script>\n".toList

/-- The tree behind a run that writes this page to `/w/<above>/a.html`. -/
def pageTree (above : List Text) : Tree :=
  ⟨pageStart.tree.entries ++ above.inits.tail.map (fun names => ("w".toList :: names, .directory)) ++
    [("w".toList :: (above ++ ["a.html".toList]), .file (.text loadedPage))]⟩

theorem wellFormed_page : pageStart.tree.WellFormed := ⟨by decide, by decide, by decide⟩

theorem starred_not_collected :
    ∃ outcome plan again, run (fun _ => none) pageStart (intoDirectory "b/*".toList) = .ok outcome ∧
      Run.plan pageStart (intoDirectory "b/*".toList) = .ok plan ∧
      Written (plan.job (intoDirectory "b/*".toList) fun _ => none) pageStart.tree plan.files outcome.tree
        ["w".toList, "b".toList, "*".toList, "a.html".toList] ∧
      Run.plan { pageStart with tree := outcome.tree } (intoDirectory "b/*".toList) = .ok again ∧
      ∀ path ∈ again.files, path.place ≠ ["w".toList, "b".toList, "*".toList, "a.html".toList] := by
  obtain ⟨first, known⟩ : ∃ plan, Run.plan pageStart (intoDirectory "b/*".toList) = .ok plan := ⟨_, rfl⟩
  have same := known
  cases same
  obtain ⟨outcome, ran, tree, written⟩ :=
    @written_of_single (fun _ => none) pageStart (intoDirectory "b/*".toList) _ "/w/./a.html".toList loadedPage
      (pageTree ["b".toList, "*".toList]) rfl known (by decide +kernel) (by decide +kernel) (by decide +kernel)
  have spelled : ∀ outDir, (intoDirectory "b/*".toList).outDir = some outDir →
      Spelled "/w/.".toList (Path.join "/w/.".toList outDir) := by
    intro outDir given
    cases given
    exact ⟨["b".toList, "*".toList], by decide, by decide, by decide⟩
  obtain ⟨plan, planned, _, apart⟩ :=
    written_not_collected (fun _ => none) pageStart (intoDirectory "b/*".toList) outcome wellFormed_page rfl rfl rfl
      spelled ran
  obtain rfl := Except.ok.inj (known.symm.trans planned)
  obtain ⟨again, replanned⟩ : ∃ again,
      Run.plan { pageStart with tree := outcome.tree } (intoDirectory "b/*".toList) = .ok again := by
    rw [tree]
    exact ⟨_, rfl⟩
  exact ⟨outcome, _, again, ran, planned, written, replanned, apart _ again _ written replanned⟩

/-- Below a directory whose name has brackets the page is written too, but the next run takes it for a source. -/
theorem bracketed_collected_again :
    ∃ outcome plan again, run (fun _ => none) pageStart (intoDirectory "out[1]".toList) = .ok outcome ∧
      Run.plan pageStart (intoDirectory "out[1]".toList) = .ok plan ∧
      Written (plan.job (intoDirectory "out[1]".toList) fun _ => none) pageStart.tree plan.files outcome.tree
        ["w".toList, "out[1]".toList, "a.html".toList] ∧
      Run.plan { pageStart with tree := outcome.tree } (intoDirectory "out[1]".toList) = .ok again ∧
      ∃ path ∈ again.files, path.place = ["w".toList, "out[1]".toList, "a.html".toList] := by
  obtain ⟨first, known⟩ : ∃ plan, Run.plan pageStart (intoDirectory "out[1]".toList) = .ok plan := ⟨_, rfl⟩
  have same := known
  cases same
  obtain ⟨outcome, ran, tree, written⟩ :=
    @written_of_single (fun _ => none) pageStart (intoDirectory "out[1]".toList) _ "/w/./a.html".toList loadedPage
      (pageTree ["out[1]".toList]) rfl known (by decide +kernel) (by decide +kernel) (by decide +kernel)
  obtain ⟨again, replanned, member⟩ : ∃ again,
      Run.plan { pageStart with tree := outcome.tree } (intoDirectory "out[1]".toList) = .ok again ∧
        "/w/./out[1]/a.html".toList ∈ again.files := by
    rw [tree]
    refine ⟨_, rfl, List.mem_filter.mpr ⟨?_, by decide +kernel⟩⟩
    exact @Tree.below_mem_walk _ _ ["w".toList] ["out[1]".toList, "a.html".toList] (.text loadedPage) rfl rfl
      (by decide)
  exact ⟨outcome, _, again, ran, known, written, replanned, _, member, by decide⟩

end TagCalls.Run
