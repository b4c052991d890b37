import TagCalls.Proofs.Run.Workers

/-!
The runs of a whole workspace. Which results can meet is told by the names of the sources and by the output
directory; where none do, it does not matter in which order the files are taken. Main statement:
`run_keeps_apart`.
-/
namespace TagCalls.Run

structure Collects (start : Start) (arguments : Arguments) (plan : Plan) (globs : List Glob) : Prop where
  root : plan.workspace.root = start.directory.join arguments.workspace
  outDir : plan.workspace.outDir = arguments.outDir.map plan.workspace.root.join
  read : ignores plan.workspace plan.settings.ignore = .ok globs
  files : plan.files = collect start.tree plan.workspace globs

theorem collects_of_plan {start : Start} {arguments : Arguments} {plan : Plan} (unnamed : arguments.paths = [])
    (planned : Run.plan start arguments = .ok plan) : ∃ globs, Collects start arguments plan globs := by
  rw [Run.plan] at planned
  cases loaded : loadConfig start.tree (start.directory.join arguments.workspace) arguments.config with
  | error fatal =>
    rw [loaded] at planned
    cases planned
  | ok found =>
    rw [loaded] at planned
    cases read : ignores ⟨start.directory.join arguments.workspace,
        arguments.outDir.map (start.directory.join arguments.workspace).join⟩
        (Settings.resolve arguments found.1 start.pragma).ignore with
    | error fatal =>
      simp only [Except.mapError, bind, Except.bind, read] at planned
      cases planned
    | ok globs =>
      simp only [Except.mapError, bind, Except.bind, read, unnamed] at planned
      cases planned
      exact ⟨globs, rfl, rfl, read, rfl⟩

section
variable {start : Start} {arguments : Arguments} {plan : Plan} {globs : List Glob}

theorem rooted_of_collects (absolute : start.directory.isAbsolute = true)
    (collects : Collects start arguments plan globs) : Rooted plan.workspace := by
  have root : plan.workspace.root.isAbsolute = true := by
    rw [collects.root]
    exact Path.absolute_join absolute _
  refine ⟨root, ?_⟩
  intro outDir given
  rw [collects.outDir, Option.map_eq_some_iff] at given
  obtain ⟨text, _, rfl⟩ := given
  exact Path.absolute_join root text

theorem exists_source (formed : start.tree.WellFormed) (absolute : start.directory.isAbsolute = true)
    (collects : Collects start arguments plan globs) {path : Path} (member : path ∈ plan.files) :
    ∃ source : Source start.tree plan.workspace.root, source.path = path := by
  rw [collects.files] at member
  obtain ⟨walked, kept⟩ := List.mem_filter.mp member
  obtain ⟨names, rfl, found⟩ := Tree.mem_walk formed (rooted_of_collects absolute collects).root walked
  rw [Bool.and_eq_true, isSource, Option.isSome_iff_exists] at kept
  obtain ⟨kind, source⟩ := kept.1
  obtain ⟨name, named, filled, shape⟩ := named_of_kind source
  exact ⟨⟨names, kind, name, found, source, named, filled, shape⟩, rfl⟩

end

theorem steady_of_sources {tree : Tree} {root : Path} {files : List Path}
    (sources : ∀ path ∈ files, ∃ source : Source tree root, source.path = path) : Steady tree files := by
  intro path member location along
  obtain ⟨source, rfl⟩ := sources path member
  obtain ⟨content, file⟩ := source.walked.file
  refine (Tree.passed_of_follow source.walked.resolved location along).imp id ?_
  rintro rfl
  refine ⟨rfl, ?_⟩
  rw [file]
  nofun

/-- Two sources have one place for their results only if they are pages of one stem, one `.html` and one
`.htm`, without an output directory. A result takes the place of a source only in an output directory that
holds the source and that the workspace does not see as names joined by slashes, or one of the names has a bracket, a
brace or a backslash. A place that is to be made is on the way to another one only in an output
directory whose path leads upwards or if a directory with sources has the name of a script's result. Apart
from these cases every course of the workers ends with the tree of the run, the sources stay as they are, and every
result that is due and can be written is in its place. -/
theorem run_keeps_apart (checker : Checker) (start : Start) (arguments : Arguments) (outcome : Outcome)
    (formed : start.tree.WellFormed) (absolute : start.directory.isAbsolute = true)
    (unnamed : arguments.paths = []) (kept : arguments.stdout = false)
    (ran : run checker start arguments = .ok outcome) :
    ∃ plan, Run.plan start arguments = .ok plan ∧
      let job := plan.job arguments checker
      (∀ one ∈ plan.files, ∀ two ∈ plan.files, one ≠ two →
        (job.output one).place = (job.output two).place →
        arguments.outDir = none ∧ ∃ stem, TwinsOf stem one two) ∧
      (∀ one ∈ plan.files, ∀ two ∈ plan.files, (job.output one).place = two.place →
        ∃ outDir, plan.workspace.outDir = some outDir ∧ outDir.place <+: two.place ∧
          ¬ Spelled plan.workspace.root outDir) ∧
      (∀ one ∈ plan.files, ∀ two ∈ plan.files, (job.output one).place ∈ (job.output two).way →
        start.tree.get? (job.output one).place = none →
        ∃ outDir, plan.workspace.outDir = some outDir ∧
          ("..".toList ∈ outDir.components ∨ (one.withExtension "js".toList).place <+: two.place)) ∧
      (Apart job start.tree plan.files →
        (∀ final, Finishes job start.tree plan.files final →
          ∀ location, final.get? location = outcome.tree.get? location) ∧
        (∀ path ∈ plan.files, outcome.tree.get? path.place = start.tree.get? path.place) ∧
        ∀ path ∈ plan.files, ∀ text, Due job start.tree path text → start.tree.Lands (job.output path) →
          outcome.tree.get? (job.output path).place = some (.file (.text text))) := by
  rw [run] at ran
  cases planned : Run.plan start arguments with
  | error fatal =>
    rw [planned] at ran
    cases ran
  | ok plan =>
    rw [planned] at ran
    cases ran
    obtain ⟨globs, collects⟩ := collects_of_plan unnamed planned
    have rooted : Rooted (plan.job arguments checker).workspace := rooted_of_collects absolute collects
    have sources : ∀ path ∈ plan.files,
        ∃ source : Source start.tree (plan.job arguments checker).workspace.root, source.path = path :=
      fun path member => exists_source formed absolute collects member
    have collected : ∀ path ∈ plan.files, path ∈ collect start.tree plan.workspace globs :=
      fun path member => collects.files ▸ member
    have walked : ∀ path ∈ plan.files, path ∈ start.tree.walk plan.workspace.root :=
      fun path member => (List.mem_filter.mp (collected path member)).1
    refine ⟨plan, rfl, ?_, ?_, ?_, ?_⟩
    · intro one first two second other same
      obtain ⟨source, rfl⟩ := sources one first
      obtain ⟨source', rfl⟩ := sources two second
      rcases eq_or_twins rooted (walked _ first) (walked _ second) same with equal | ⟨beside, twins⟩
      · exact absurd equal other
      · refine ⟨?_, twins⟩
        have given : plan.workspace.outDir = none := beside
        rw [collects.outDir] at given
        exact Option.map_eq_none_iff.mp given
    · intro one first two second same
      obtain ⟨source, rfl⟩ := sources one first
      obtain ⟨source', rfl⟩ := sources two second
      cases given : plan.workspace.outDir with
      | none =>
        exact absurd same (not_overwritten_beside rooted collects.read (walked _ first) (collected _ second) given)
      | some outDir =>
        exact ⟨outDir, rfl, overwritten_in_outDir rooted collects.read (collected _ second) given same⟩
    · intro one first two second through missing
      obtain ⟨source, rfl⟩ := sources one first
      obtain ⟨source', rfl⟩ := sources two second
      exact missing_on_way formed rooted (walked _ first) (walked _ second) missing through
    · intro apart
      have steady := steady_of_sources sources
      have printed : (plan.job arguments checker).printed = false := kept
      have course : Finishes (plan.job arguments checker) start.tree plan.files _ :=
        ⟨_, course_processFiles (plan.job arguments checker) start.tree plan.files⟩
      refine ⟨?_, ?_, ?_⟩
      · intro final finishes location
        exact finishes_unique printed apart steady finishes course location
      · intro path member
        exact finishes_sources printed apart steady course member
      · intro path member text due lands
        exact finishes_result printed apart steady course member ((result?_eq_some_iff _ _ _ _).mpr due) lands

def pairPage : Text := "<script type=text/jsx>b</script>".toList

def pairStart : Start where
  tree := ⟨[(["w".toList], .directory),
    (["w".toList, "a.html".toList], .file (.text pairPage)),
    (["w".toList, "a.jsx".toList], .file (.text "c".toList))]⟩
  directory := "/w".toList

def pairArguments : Arguments where
  outDir := some "./out".toList

theorem wellFormed_pair : pairStart.tree.WellFormed := ⟨by decide, by decide, by decide⟩

theorem walk_pair {path : Path} (member : path ∈ pairStart.tree.walk "/w/.".toList) :
    path = "/w/./a.html".toList ∨ path = "/w/./a.jsx".toList := by
  have resolved : pairStart.tree.resolve "/w/.".toList = .ok ["w".toList] := rfl
  rw [Tree.walk, resolved] at member
  obtain ⟨names, below, rfl⟩ := List.mem_map.mp member
  rw [Tree.filesBelow, List.mem_mergeSort] at below
  rcases List.mem_cons.mp below with rfl | below
  · exact .inl rfl
  rcases List.mem_cons.mp below with rfl | below
  · exact .inr rfl
  · cases below

theorem run_keeps_pair_apart :
    ∃ outcome plan, run (fun _ => none) pairStart pairArguments = .ok outcome ∧
      Run.plan pairStart pairArguments = .ok plan ∧
      "/w/./a.html".toList ∈ plan.files ∧ "/w/./a.jsx".toList ∈ plan.files ∧
      (∀ final, Finishes (plan.job pairArguments fun _ => none) pairStart.tree plan.files final →
        ∀ location, final.get? location = outcome.tree.get? location) ∧
      outcome.tree.get? ["w".toList, "a.html".toList] = some (.file (.text pairPage)) ∧
      outcome.tree.get? ["w".toList, "out".toList, "a.html".toList] = some (.file (.text
        "<script data-transformed=\"true\" type=text/jsx>b</script>\n<script>\nb\n</script>\n".toList)) ∧
      outcome.tree.get? ["w".toList, "out".toList, "a.js".toList] = some (.file (.text "c".toList)) := by
  obtain ⟨outcome, ran⟩ : ∃ outcome, run (fun _ => none) pairStart pairArguments = .ok outcome := ⟨_, rfl⟩
  obtain ⟨plan, planned, twins, overwritten, ways, courses⟩ :=
    run_keeps_apart (fun _ => none) pairStart pairArguments outcome wellFormed_pair rfl rfl rfl ran
  have files : ∀ path ∈ plan.files, path = "/w/./a.html".toList ∨ path = "/w/./a.jsx".toList := by
    cases planned
    intro path member
    exact walk_pair (List.mem_filter.mp member).1
  have outDir : plan.workspace.outDir = some "/w/././out".toList ∧ plan.workspace.root = "/w/.".toList := by
    cases planned
    exact ⟨rfl, rfl⟩
  have page : "/w/./a.html".toList ∈ plan.files := by
    cases planned
    apply List.mem_filter.mpr
    refine ⟨@Tree.below_mem_walk _ _ ["w".toList] ["a.html".toList] (.text pairPage) rfl rfl (by decide), ?_⟩
    decide +kernel
  have script : "/w/./a.jsx".toList ∈ plan.files := by
    cases planned
    apply List.mem_filter.mpr
    refine ⟨@Tree.below_mem_walk _ _ ["w".toList] ["a.jsx".toList] (.text "c".toList) rfl rfl (by decide), ?_⟩
    decide +kernel
  have apart : Apart (plan.job pairArguments fun _ => none) pairStart.tree plan.files := by
    refine ⟨?_, ?_, ?_⟩
    · intro one first two second same
      by_cases equal : one = two
      · exact equal
      · cases (twins one first two second equal same).1
    · intro one first two second same
      obtain ⟨found, given, _, special⟩ := overwritten one first two second same
      cases given.symm.trans outDir.1
      rw [outDir.2] at special
      apply special
      exact ⟨["out".toList], by decide, by decide, by decide⟩
    · intro one first two second through missing
      obtain ⟨found, given, upwards⟩ := ways one first two second through missing
      cases given.symm.trans outDir.1
      rcases upwards with dots | above
      · exact absurd dots (by decide)
      · rcases files one first with rfl | rfl <;> rcases files two second with rfl | rfl <;>
          exact absurd above (by decide)
  obtain ⟨unique, kept, written⟩ := courses apart
  refine ⟨outcome, plan, ran, planned, page, script, unique, kept _ page, ?_, ?_⟩
  · have due := written _ page
    cases planned
    exact due _ ((result?_eq_some_iff _ _ _ _).mp (by decide +kernel)) ⟨by decide, by decide, by decide⟩
  · have due := written _ script
    cases planned
    exact due _ ((result?_eq_some_iff _ _ _ _).mp (by decide +kernel)) ⟨by decide, by decide, by decide⟩

def twinStart : Start where
  tree := ⟨[(["w".toList], .directory),
    (["w".toList, "a.htm".toList], .file (.text "b".toList)),
    (["w".toList, "a.html".toList], .file (.text "c".toList))]⟩
  directory := "/w".toList

/-- Two pages of one stem are both sources, and their results have one place. -/
theorem twins_share_result :
    ∃ plan, Run.plan twinStart {} = .ok plan ∧
      "/w/./a.htm".toList ∈ plan.files ∧ "/w/./a.html".toList ∈ plan.files ∧
      ((plan.job {} fun _ => none).output "/w/./a.htm".toList).place =
        ((plan.job {} fun _ => none).output "/w/./a.html".toList).place := by
  refine ⟨_, rfl, ?_, ?_, by decide +kernel⟩
  · apply List.mem_filter.mpr
    refine ⟨@Tree.below_mem_walk _ _ ["w".toList] ["a.htm".toList] (.text "b".toList) rfl rfl (by decide), ?_⟩
    decide +kernel
  · apply List.mem_filter.mpr
    refine ⟨@Tree.below_mem_walk _ _ ["w".toList] ["a.html".toList] (.text "c".toList) rfl rfl (by decide), ?_⟩
    decide +kernel

end TagCalls.Run
