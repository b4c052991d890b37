import TagCalls.Proofs.Run.Course
import TagCalls.Run.Outcome

/-!
The account that a run gives of its files: it counts an error exactly if some file is in trouble, and a regular
file changes only where the result of a file goes that has one, in whatever order the files are taken. Main
statement: `run_accounts`.
-/
namespace TagCalls.Run

/-- Among files taken one after the other, a file and the tree that it finds. -/
def Meets (job : Job) (tree : Tree) (files : List Path) (path : Path) (now : Tree) : Prop :=
  ∃ before after, files = before ++ path :: after ∧ now = (processFiles job tree before).2

section
variable {job : Job} {tree : Tree} {path : Path}

theorem meets_later {now : Tree} {first : Path} {files : List Path}
    (meets : Meets job (processFile job tree first).2 files path now) :
    Meets job tree (first :: files) path now := by
  obtain ⟨before, after, rfl, rfl⟩ := meets
  exact ⟨first :: before, after, rfl, rfl⟩

theorem meets_first (path : Path) (files : List Path) : Meets job tree (path :: files) path tree :=
  ⟨[], files, rfl, rfl⟩

theorem meets_cases {now : Tree} {first : Path} {files : List Path}
    (meets : Meets job tree (first :: files) path now) :
    path = first ∧ now = tree ∨ Meets job (processFile job tree first).2 files path now := by
  obtain ⟨before, after, split, rfl⟩ := meets
  cases before with
  | nil =>
    cases split
    exact .inl ⟨rfl, rfl⟩
  | cons head before =>
    cases split
    exact .inr ⟨before, after, rfl, rfl⟩

theorem not_meets_nil {now : Tree} : ¬ Meets job tree [] path now := by
  intro meets
  obtain ⟨before, after, split, _⟩ := meets
  cases before <;> cases split

theorem meets_of_mem {files : List Path} {entry : LogEntry} (member : entry ∈ inTurn job tree files) :
    Meets job tree files entry.path entry.found ∧ entry.left = entry.found := by
  induction files generalizing tree with
  | nil => cases member
  | cons first files ih =>
    rcases List.mem_cons.mp member with rfl | later
    · exact ⟨meets_first first files, rfl⟩
    · exact (ih later).imp_left meets_later

theorem mem_of_meets {files : List Path} {now : Tree} (meets : Meets job tree files path now) :
    ∃ entry ∈ inTurn job tree files, entry.path = path ∧ entry.found = now ∧ entry.left = now := by
  induction files generalizing tree with
  | nil => exact absurd meets not_meets_nil
  | cons first files ih =>
    rcases meets_cases meets with ⟨rfl, rfl⟩ | later
    · exact ⟨_, List.mem_cons_self, rfl, rfl, rfl⟩
    · obtain ⟨entry, member, same⟩ := ih later
      exact ⟨entry, List.mem_cons_of_mem _ member, same⟩

theorem trouble_inTurn (files : List Path) :
    (∃ entry ∈ inTurn job tree files, Trouble job entry.found entry.left entry.path) ↔
      ∃ path now, Meets job tree files path now ∧ Trouble job now now path := by
  constructor
  · intro found
    obtain ⟨entry, member, trouble⟩ := found
    obtain ⟨met, same⟩ := meets_of_mem member
    rw [same] at trouble
    exact ⟨_, _, met, trouble⟩
  · intro found
    obtain ⟨path, now, met, trouble⟩ := found
    obtain ⟨entry, member, rfl, rfl, same⟩ := mem_of_meets met
    exact ⟨entry, member, same.symm ▸ trouble⟩

end

theorem countSeverity_pos_iff (log : List LogEntry) :
    0 < countSeverity .error (log.map (·.report)) ↔ ∃ entry ∈ log, HasError entry.report.diagnostics := by
  rw [countSeverity, List.countP_pos_iff]
  simp only [HasError, beq_iff_eq, List.mem_flatMap, List.mem_map, exists_exists_and_eq_and]
  constructor
  · intro found
    obtain ⟨diagnostic, ⟨entry, member, inside⟩, severe⟩ := found
    exact ⟨entry, member, diagnostic, inside, severe⟩
  · intro found
    obtain ⟨entry, member, diagnostic, inside, severe⟩ := found
    exact ⟨diagnostic, ⟨entry, member, inside⟩, severe⟩

theorem course_accounts {job : Job} {tree final : Tree} {files : List Path} {log : List LogEntry}
    (course : Course job tree files log final) :
    (log.map (·.path)).Perm files ∧
      (0 < countSeverity .error (log.map (·.report)) ↔
        ∃ entry ∈ log, Trouble job entry.found entry.left entry.path) ∧
      ∀ location, final.content? location ≠ tree.content? location →
        job.printed = false ∧ ∃ entry ∈ log, ∃ text, Due job entry.found entry.path text ∧
          location = (job.output entry.path).place ∧ final.content? location = some (.text text) := by
  obtain ⟨all, _, told, changed⟩ := accounted_run course (accounted_initial job tree files)
  refine ⟨all, ?_, changed⟩
  rw [countSeverity_pos_iff]
  constructor
  · intro found
    obtain ⟨entry, member, wrong⟩ := found
    exact ⟨entry, member, (told entry member).mp wrong⟩
  · intro found
    obtain ⟨entry, member, trouble⟩ := found
    exact ⟨entry, member, (told entry member).mpr trouble⟩

/-- A run counts an error, and then ends with status 1, exactly if some file is in trouble when its turn
comes. A regular file that the run creates or changes holds the text due for a file whose result goes
there, and there is none if results are printed. The run is a course of the workers, and the same holds of every
course, with the trees that each file was read in and its result was written to. -/
theorem run_accounts (checker : Checker) (start : Start) (arguments : Arguments) (outcome : Outcome)
    (ran : run checker start arguments = .ok outcome) :
    ∃ plan, Run.plan start arguments = .ok plan ∧
      let job := plan.job arguments checker
      (outcome.exit = 1 ↔ 0 < outcome.summary.errors) ∧
      (0 < outcome.summary.errors ↔ ∃ path now,
        Meets job start.tree plan.files path now ∧ Trouble job now now path) ∧
      (∀ location, outcome.tree.content? location ≠ start.tree.content? location →
        arguments.stdout = false ∧ ∃ path now text, Meets job start.tree plan.files path now ∧
          Due job now path text ∧ location = (job.output path).place ∧
          outcome.tree.content? location = some (.text text)) ∧
      (∃ log, Course job start.tree plan.files log outcome.tree ∧
        outcome.summary = summarize (log.map (·.report))) ∧
      ∀ log final, Course job start.tree plan.files log final →
        (log.map (·.path)).Perm plan.files ∧
        (0 < (summarize (log.map (·.report))).errors ↔
          ∃ entry ∈ log, Trouble job entry.found entry.left entry.path) ∧
        ∀ location, final.content? location ≠ start.tree.content? location →
          arguments.stdout = false ∧ ∃ entry ∈ log, ∃ text, Due job entry.found entry.path text ∧
            location = (job.output entry.path).place ∧ final.content? location = some (.text text) := by
  rw [run] at ran
  cases planned : Run.plan start arguments with
  | error fatal =>
    rw [planned] at ran
    cases ran
  | ok plan =>
    rw [planned] at ran
    cases ran
    have course := course_processFiles (plan.job arguments checker) start.tree plan.files
    have reports := reports_inTurn (plan.job arguments checker) start.tree plan.files
    obtain ⟨_, errors, changes⟩ := course_accounts course
    refine ⟨plan, rfl, ?_, ?_, ?_, ⟨_, course, by rw [reports]⟩, fun _ _ => course_accounts⟩
    · rw [Outcome.exit]
      split <;> simp_all
    · rw [reports, trouble_inTurn] at errors
      exact errors
    · intro location changed
      obtain ⟨kept, entry, member, text, due, here, holds⟩ := changes location changed
      exact ⟨kept, _, _, text, (meets_of_mem member).1, due, here, holds⟩

def sampleStart : Start where
  tree := ⟨[(["w".toList], .directory), (["w".toList, "a.jsx".toList], .file (.text "b".toList))]⟩
  directory := "/w".toList

def sampleArguments : Arguments where
  paths := ["c.jsx".toList, "a.jsx".toList]

theorem course_pair {job : Job} {tree : Tree} {one two : Path} {text : Text}
    (nothing : job.result? tree one = none) (result : job.result? tree two = some text) :
    ∃ first second final, Course job tree [one, two] [first, second] final ∧
      first.path = one ∧ first.found = tree ∧ second.path = two ∧ second.found = tree := by
  have take := @Pool.Step.take job [one] [] two [] tree [] _ text (Prod.ext rfl result)
  have idle := @Pool.Step.idle job [] [] one [⟨two, tree, (job.read tree two).1, text⟩] tree [] _
    (Prod.ext rfl nothing)
  have write := @Pool.Step.write job [] [] [] ⟨two, tree, (job.read tree two).1, text⟩ tree _
    [⟨one, tree, tree, (job.read tree one).1⟩] _ rfl
  exact ⟨_, _, _, .head take (.head idle (.single write)), rfl, rfl, rfl, rfl⟩

/-- Of two named scripts the first one is missing: the run fails, and the result of the second is all
that can change. It fails too if both are read before anything is written. -/
theorem run_accounts_sample :
    ∃ outcome plan, run (fun _ => none) sampleStart sampleArguments = .ok outcome ∧
      Run.plan sampleStart sampleArguments = .ok plan ∧ outcome.exit = 1 ∧
      (∀ location, outcome.tree.content? location ≠ sampleStart.tree.content? location →
        location = ["w".toList, "a.js".toList]) ∧
      ∃ first second final,
        Course (plan.job sampleArguments fun _ => none) sampleStart.tree plan.files [first, second] final ∧
        second.path = "/w/./a.jsx".toList ∧ second.found = sampleStart.tree ∧
        0 < (summarize [first.report, second.report]).errors := by
  obtain ⟨outcome, ran⟩ : ∃ outcome, run (fun _ => none) sampleStart sampleArguments = .ok outcome := ⟨_, rfl⟩
  obtain ⟨plan, planned, status, wrong, changes, _, courses⟩ :=
    run_accounts (fun _ => none) sampleStart sampleArguments outcome ran
  have missing : sampleStart.tree.read "/w/./c.jsx".toList = .error .notFound := rfl
  refine ⟨outcome, plan, ran, planned, ?_, ?_, ?_⟩
  · cases planned
    apply status.mpr
    apply wrong.mpr
    exact ⟨"/w/./c.jsx".toList, sampleStart.tree, meets_first _ _, .unread missing⟩
  · cases planned
    intro location changed
    obtain ⟨_, path, now, text, met, due, here, _⟩ := changes location changed
    rcases meets_cases met with ⟨rfl, rfl⟩ | met
    · cases due with
      | script readable => cases missing.symm.trans readable
      | page readable => cases missing.symm.trans readable
    rcases meets_cases met with ⟨rfl, _⟩ | met
    · exact here
    · exact absurd met not_meets_nil
  · have files : plan.files = ["/w/./c.jsx".toList, "/w/./a.jsx".toList] := by
      cases planned
      rfl
    have nothing : (plan.job sampleArguments fun _ => none).result? sampleStart.tree "/w/./c.jsx".toList = none := by
      rw [Job.result?, Job.read, missing]
    have result : (plan.job sampleArguments fun _ => none).result? sampleStart.tree "/w/./a.jsx".toList =
        some "b".toList := by
      cases planned
      decide +kernel
    obtain ⟨first, second, final, course, path, found, same⟩ := course_pair nothing result
    rw [← files] at course
    refine ⟨first, second, final, course, same.1, same.2, ?_⟩
    apply (courses _ final course).2.1.mpr
    have unread : first.found.read first.path = .error .notFound := by rw [path, found, missing]
    exact ⟨first, List.mem_cons_self, .unread unread⟩

end TagCalls.Run
