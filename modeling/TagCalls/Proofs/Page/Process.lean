import TagCalls.Page.Process
import TagCalls.Proofs.Page.Emitted

/-!
The blocks of a page, one after the other into an emitter. What is reported of a block depends on that
block alone, because the numbers of the blocks differ and the emitter refuses a number only the second
time. Main statement: `process_accounts`.
-/
namespace TagCalls.Page

def Embeddable (code : Text) : Prop := ¬ endWord <:+: Text.fold code

instance (code : Text) : Decidable (Embeddable code) :=
  decidable_of_iff (¬ Text.containsFolded endWord code = true) (not_congr Text.containsFolded_iff)

/-- The report on a block, as it follows from the block by itself. -/
structure Accounts (session : Session) (bestEffort : Bool) (block : Block) (report : Report) : Prop where
  id : report.id = block.id
  content : report.content = block.content
  result : report.result = session.transpile block.text
  loaded : report.status = .loaded ↔
    ∃ output pragma, report.result = .done output pragma ∧ Embeddable output
  fallback : report.status = .loadedFallback ↔
    ∃ error source, report.result = .failed error source ∧ bestEffort = true ∧
      Embeddable (Transpiled.annotate error source)
  skipped : report.status = .skipped ↔
    (∃ error source, report.result = .failed error source) ∧ bestEffort = false
  refused : ∀ error, report.status = .loadFailed error → ∃ reason, error = .unembeddable block.id reason

def Report.isLoaded (report : Report) : Bool := report.status = .loaded ∨ report.status = .loadedFallback

def reportedLoads (bestEffort : Bool) (reported : List (Block × Report)) : List (Block × Option Text) :=
  (reported.filter (·.2.isLoaded)).map fun (block, report) => (block, report.result.executable? bestEffort)

def Emitter.contents (emitter : Emitter) : List (Block × Option Text) :=
  emitter.loaded.map fun item => (item.block, some item.code)

def Emitter.Lacks (emitter : Emitter) (id : Nat) : Prop := ∀ item ∈ emitter.loaded, item.block.id ≠ id

theorem load_embeddable {emitter : Emitter} {block : Block} {code : Text} (lacks : emitter.Lacks block.id)
    (embeddable : Embeddable code) : emitter.load block code = .ok ⟨emitter.loaded ++ [⟨block, code⟩]⟩ :=
  (load_eq_ok_iff _ _ _ _).mpr ⟨embeddable, lacks, rfl⟩

theorem load_refused {code : Text} (emitter : Emitter) (block : Block) (closes : ¬ Embeddable code) :
    ∃ reason, emitter.load block code = .error (.unembeddable block.id reason) := by
  have ends : Text.containsFolded endWord code = true :=
    Text.containsFolded_iff.mpr (Classical.not_not.mp closes)
  rw [Emitter.load, if_pos ends]
  exact ⟨_, rfl⟩

theorem processBlock_cases {σ : Type} (session : Session) (loader : Loader σ) (bestEffort : Bool) (state : σ)
    (block : Block) :
    (session.transpile block.text).executable? bestEffort = none ∧
        processBlock session loader bestEffort state block =
          (⟨block.id, block.content, session.transpile block.text, .skipped⟩, state) ∨
    ∃ code, (session.transpile block.text).executable? bestEffort = some code ∧
      ((∃ error, loader state block code = .error error ∧
          processBlock session loader bestEffort state block =
            (⟨block.id, block.content, session.transpile block.text, .loadFailed error⟩, state)) ∨
        ∃ next, loader state block code = .ok next ∧
          processBlock session loader bestEffort state block =
            (⟨block.id, block.content, session.transpile block.text,
              if (session.transpile block.text).error?.isSome then .loadedFallback else .loaded⟩, next)) := by
  unfold processBlock
  cases found : (session.transpile block.text).executable? bestEffort with
  | none => exact .inl ⟨rfl, by simp only [found]⟩
  | some code =>
    refine .inr ⟨code, rfl, ?_⟩
    cases answer : loader state block code with
    | error error => exact .inl ⟨error, rfl, by simp only [found, answer]⟩
    | ok next => exact .inr ⟨next, rfl, by simp only [found, answer]⟩

section
variable {session : Session} {bestEffort : Bool} {emitter : Emitter} {block : Block}

theorem executable?_eq_some_iff {result : Transpiled} {code : Text} :
    result.executable? bestEffort = some code ↔
      (∃ pragma, result = .done code pragma) ∨
        bestEffort = true ∧
          ∃ error source, result = .failed error source ∧ code = Transpiled.annotate error source := by
  cases result with
  | done output pragma => simp [Transpiled.executable?, eq_comm]
  | failed error source => cases bestEffort <;> simp [Transpiled.executable?, eq_comm]

theorem executable?_eq_none_iff {result : Transpiled} :
    result.executable? bestEffort = none ↔ bestEffort = false ∧ ∃ error source, result = .failed error source := by
  cases result with
  | done output pragma => simp [Transpiled.executable?]
  | failed error source => cases bestEffort <;> simp [Transpiled.executable?]

theorem processBlock_accounts (lacks : emitter.Lacks block.id) :
    ∃ report next, processBlock session Emitter.load bestEffort emitter block = (report, next) ∧
      Accounts session bestEffort block report ∧
      next.contents = emitter.contents ++ reportedLoads bestEffort [(block, report)] := by
  rcases processBlock_cases session Emitter.load bestEffort emitter block with
    ⟨lacking, step⟩ | ⟨code, runnable, ⟨error, refused, step⟩ | ⟨next, accepted, step⟩⟩
  · obtain ⟨off, error, source, failed⟩ := executable?_eq_none_iff.mp lacking
    refine ⟨_, _, step, ?_, ?_⟩
    · constructor <;> simp [failed, off]
    · simp [reportedLoads, Report.isLoaded]
  · have closes : ¬ Embeddable code := by
      intro embeddable
      rw [load_embeddable lacks embeddable] at refused
      cases refused
    obtain ⟨reason, reported⟩ := load_refused emitter block closes
    obtain rfl := Except.error.inj (refused.symm.trans reported)
    refine ⟨_, _, step, ?_, ?_⟩
    · rcases executable?_eq_some_iff.mp runnable with ⟨pragma, done⟩ | ⟨on, cause, source, failed, rfl⟩
      · constructor <;> simp [done, closes]
      · constructor <;> simp [failed, on, closes]
    · simp [reportedLoads, Report.isLoaded]
  · obtain ⟨embeddable, _, rfl⟩ := (load_eq_ok_iff _ _ _ _).mp accepted
    have free : Embeddable code := embeddable
    refine ⟨_, _, step, ?_, ?_⟩
    · rcases executable?_eq_some_iff.mp runnable with ⟨pragma, done⟩ | ⟨on, cause, source, failed, rfl⟩
      · constructor <;> simp [done, free, Transpiled.error?]
      · constructor <;> simp [failed, on, free, Transpiled.error?]
    · cases (session.transpile block.text).error? <;>
        simp [Emitter.contents, reportedLoads, Report.isLoaded, runnable]

theorem lacks_next {next : Emitter} {report : Report} {id : Nat}
    (taken : next.contents = emitter.contents ++ reportedLoads bestEffort [(block, report)])
    (lacks : emitter.Lacks id) (other : block.id ≠ id) : next.Lacks id := by
  intro item member
  have held : (item.block, some item.code) ∈ next.contents := List.mem_map_of_mem member
  rw [taken] at held
  rcases List.mem_append.mp held with before | now
  · rcases List.mem_map.mp before with ⟨earlier, inside, same⟩
    have identical : earlier.block = item.block := congrArg Prod.fst same
    rw [← identical]
    exact lacks earlier inside
  · rcases List.mem_map.mp now with ⟨pair, inside, same⟩
    have single := List.mem_singleton.mp (List.mem_filter.mp inside).1
    have identical : pair.1 = item.block := congrArg Prod.fst same
    rw [← identical, single]
    exact other

theorem reportedLoads_cons (first : Block × Report) (rest : List (Block × Report)) :
    reportedLoads bestEffort (first :: rest) =
      reportedLoads bestEffort [first] ++ reportedLoads bestEffort rest := by
  rw [reportedLoads, reportedLoads, reportedLoads, ← List.map_append, ← List.filter_append]
  rfl

theorem process_contents (blocks : List Block)
    (distinct : blocks.Pairwise fun first second => first.id ≠ second.id)
    (lacks : ∀ block ∈ blocks, emitter.Lacks block.id) :
    ∃ reports last, process session Emitter.load bestEffort emitter blocks = (reports, last) ∧
      List.Forall₂ (Accounts session bestEffort) blocks reports ∧
      last.contents = emitter.contents ++ reportedLoads bestEffort (blocks.zip reports) := by
  -- the emitter never holds a number that is still to come
  induction distinct generalizing emitter with
  | nil => exact ⟨[], emitter, rfl, .nil, (List.append_nil _).symm⟩
  | @cons block blocks others _ ih =>
    obtain ⟨report, next, step, accounts, taken⟩ :=
      @processBlock_accounts session bestEffort emitter block (lacks block List.mem_cons_self)
    have later : ∀ other ∈ blocks, next.Lacks other.id := by
      intro other member
      exact lacks_next taken (lacks other (List.mem_cons_of_mem _ member)) (others other member)
    obtain ⟨reports, last, run, all, filled⟩ := ih later
    refine ⟨report :: reports, last, ?_, .cons accounts all, ?_⟩
    · rw [process, step]
      simp only [run]
    · rw [filled, taken, List.zip_cons_cons, reportedLoads_cons (block, report) (blocks.zip reports),
        List.append_assoc]

end

theorem results_process {σ : Type} (session : Session) (loader : Loader σ) (bestEffort : Bool) (state : σ)
    (blocks : List Block) :
    (process session loader bestEffort state blocks).1.map (·.result) =
      blocks.map fun block => session.transpile block.text := by
  induction blocks generalizing state with
  | nil => rfl
  | cons block blocks ih =>
    have here : (processBlock session loader bestEffort state block).1.result = session.transpile block.text := by
      rcases processBlock_cases session loader bestEffort state block with
        ⟨_, step⟩ | ⟨_, _, ⟨_, _, step⟩ | ⟨_, _, step⟩⟩ <;> rw [step]
    rw [process, List.map_cons, List.map_cons, ih, here]

theorem size_processBlock (session : Session) (bestEffort : Bool) (emitter : Emitter) (block : Block) :
    (processBlock session Emitter.load bestEffort emitter block).2.size =
      emitter.size +
        if (processBlock session Emitter.load bestEffort emitter block).1.isLoaded then 1 else 0 := by
  rcases processBlock_cases session Emitter.load bestEffort emitter block with
    ⟨_, step⟩ | ⟨code, _, ⟨error, _, step⟩ | ⟨next, accepted, step⟩⟩
  · simp [step, Report.isLoaded]
  · simp [step, Report.isLoaded]
  · obtain ⟨_, _, rfl⟩ := (load_eq_ok_iff _ _ _ _).mp accepted
    rw [step]
    cases (session.transpile block.text).error? <;> simp [Report.isLoaded, Emitter.size]

theorem size_process (session : Session) (bestEffort : Bool) (emitter : Emitter) (blocks : List Block) :
    (process session Emitter.load bestEffort emitter blocks).2.size =
      emitter.size + (process session Emitter.load bestEffort emitter blocks).1.countP (·.isLoaded) := by
  induction blocks generalizing emitter with
  | nil => rfl
  | cons block blocks ih =>
    rw [process, List.countP_cons, ih, size_processBlock]
    omega

theorem blocksFrom_distinct (id : Nat) (found : List Element) :
    (blocksFrom id found).Pairwise fun first second => first.id ≠ second.id := by
  have any : found.Pairwise fun _ _ => True := List.pairwise_of_forall fun _ _ => trivial
  exact blocksFrom_pairwise (fun _ _ _ _ less _ => Nat.ne_of_lt less) id any

/-- Every located block gets one report, in order, that follows from the block by itself, and the emitter
holds exactly the blocks reported as loaded, each with the text that may run. -/
theorem process_accounts (session : Session) (type document : Text) (bestEffort : Bool) (blocks : List Block)
    (located : locate type document = .ok blocks) :
    ∃ reports emitter, process session Emitter.load bestEffort {} blocks = (reports, emitter) ∧
      List.Forall₂ (Accounts session bestEffort) blocks reports ∧
      emitter.contents = reportedLoads bestEffort (blocks.zip reports) := by
  have distinct : blocks.Pairwise fun first second => first.id ≠ second.id := by
    cases searched : elements document with
    | error error =>
      rw [locate, searched] at located
      cases located
    | ok found =>
      rw [locate_of_elements type searched] at located
      cases located
      exact blocksFrom_distinct 0 _
  have empty : ∀ block ∈ blocks, Emitter.Lacks {} block.id :=
    fun _ _ _ member => absurd member List.not_mem_nil
  obtain ⟨reports, emitter, run, all, filled⟩ := process_contents blocks distinct empty
  exact ⟨reports, emitter, run, all, filled⟩

def pickySession : Session where
  lowering _ source := if source = ['a'] then .crashed none else .done source

theorem process_accounts_sample :
    ∃ reports emitter, process pickySession Emitter.load false {} [sampleBlock, otherBlock] = (reports, emitter) ∧
      reports.map (·.status) = [.skipped, .loaded] ∧ emitter.contents = [(otherBlock, some ['b'])] := by
  have failed : ∃ error, pickySession.transpile ['a'] = .failed error ['a'] := ⟨_, rfl⟩
  have passed : ∃ pragma, pickySession.transpile ['b'] = .done ['b'] pragma := ⟨_, rfl⟩
  obtain ⟨error, failed⟩ := failed
  obtain ⟨pragma, passed⟩ := passed
  obtain ⟨reports, emitter, run, all, filled⟩ :=
    process_accounts pickySession defaultType samplePage false [sampleBlock, otherBlock] locate_sample
  cases all with
  | cons first rest =>
    cases rest with
    | cons second none =>
      cases none
      have one := first.skipped.mpr ⟨⟨error, ['a'], first.result.trans failed⟩, rfl⟩
      have two := second.loaded.mpr ⟨['b'], pragma, second.result.trans passed, Text.not_infix_fold (by decide)⟩
      refine ⟨_, emitter, run, by simp [one, two], ?_⟩
      rw [filled]
      have text : pickySession.transpile otherBlock.text = .done ['b'] pragma := passed
      simp [reportedLoads, Report.isLoaded, one, two, second.result, text, Transpiled.executable?]

end TagCalls.Page
