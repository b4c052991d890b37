import TagCalls.Proofs.Glob
import TagCalls.Proofs.Run.Result
import TagCalls.Proofs.Workspace.Walk

/-!
Where the results of the sources of a workspace go. A result keeps the directory of its source, below the
workspace or below the output directory, and only its name is another one. So results meet only if the
names do, and a source is overwritten only in an output directory that the globs do not keep out.
-/
namespace TagCalls.Run

inductive Named : SourceKind → Text → Text → Prop
  | script (stem : Text) : Named .script stem (stem ++ ".jsx".toList)
  | html (stem : Text) : Named .page stem (stem ++ ".html".toList)
  | htm (stem : Text) : Named .page stem (stem ++ ".htm".toList)

/-- The name of a result. A page keeps its name in an output directory. -/
def resultName (outDir : Option Path) (kind : SourceKind) (stem name : Text) : Text :=
  match kind, outDir with
  | .script, _ => stem ++ ".js".toList
  | .page, none => stem ++ ".out.html".toList
  | .page, some _ => name

def TwinsOf (stem one two : Text) : Prop :=
  one = stem ++ ".html".toList ∧ two = stem ++ ".htm".toList ∨
    one = stem ++ ".htm".toList ∧ two = stem ++ ".html".toList

theorem TwinsOf.join {stem one two : Text} (twins : TwinsOf stem one two) (directory : Path) (filled : stem ≠ []) :
    TwinsOf (directory.join stem) (directory.join one) (directory.join two) := by
  rcases twins with ⟨rfl, rfl⟩ | ⟨rfl, rfl⟩
  · exact .inl ⟨Path.join_append filled, Path.join_append filled⟩
  · exact .inr ⟨Path.join_append filled, Path.join_append filled⟩

theorem ending_ne {s t a b : Text} (other : a.getLast?.isSome ∧ b.getLast?.isSome ∧ a.getLast? ≠ b.getLast?) :
    s ++ a ≠ t ++ b := by
  intro same
  have last := congrArg List.getLast? same
  rw [List.getLast?_append, List.getLast?_append, Option.or_of_isSome other.1, Option.or_of_isSome other.2.1] at last
  exact other.2.2 last

theorem resultName_eq {outDir : Option Path} {kind other : SourceKind} {stem stem' name name' : Text}
    (first : Named kind stem name) (second : Named other stem' name')
    (same : resultName outDir kind stem name = resultName outDir other stem' name') :
    name = name' ∨ outDir = none ∧ TwinsOf stem name name' := by
  cases first with
  | script =>
    cases second with
    | script => exact .inl (by rw [List.append_cancel_right same])
    | html => cases outDir <;> exact absurd same (ending_ne (by decide))
    | htm => cases outDir <;> exact absurd same (ending_ne (by decide))
  | html =>
    cases second with
    | script => cases outDir <;> exact absurd same (ending_ne (by decide))
    | html =>
      cases outDir with
      | none => exact .inl (by rw [List.append_cancel_right same])
      | some outDir => exact .inl same
    | htm =>
      cases outDir with
      | none => exact .inr ⟨rfl, .inl ⟨rfl, by rw [List.append_cancel_right same]⟩⟩
      | some outDir => exact .inl same
  | htm =>
    cases second with
    | script => cases outDir <;> exact absurd same (ending_ne (by decide))
    | html =>
      cases outDir with
      | none => exact .inr ⟨rfl, .inr ⟨rfl, by rw [List.append_cancel_right same]⟩⟩
      | some outDir => exact .inl same
    | htm =>
      cases outDir with
      | none => exact .inl (by rw [List.append_cancel_right same])
      | some outDir => exact .inl same

theorem named_of_kind {path : Path} {kind : SourceKind} (source : SourceKind.of? path = some kind) :
    ∃ name, path.fileName? = some name ∧ (Path.splitExtension name).1 ≠ [] ∧
      Named kind (Path.splitExtension name).1 name := by
  rw [SourceKind.of?, Path.extension?] at source
  cases found : path.fileName? with
  | none =>
    rw [found] at source
    cases source
  | some name =>
    rw [found] at source
    dsimp only [Option.bind] at source
    cases split : Path.splitExtension name with
    | mk stem extension =>
      rw [split] at source
      cases extension with
      | none => cases source
      | some extension =>
        obtain ⟨shape, filled, _⟩ := Path.splitExtension_eq_some split
        refine ⟨name, rfl, by rw [split]; exact filled, ?_⟩
        rw [split, shape]
        dsimp only at source
        split at source
        · next script =>
          cases source
          rw [script]
          exact .script stem
        · split at source
          · next page =>
            cases source
            rcases page with html | htm
            · rw [html]
              exact .html stem
            · rw [htm]
              exact .htm stem
          · cases source

structure Source (tree : Tree) (root : Path) where
  names : List Text
  kind : SourceKind
  name : Text
  walked : tree.Walked root names
  of_kind : SourceKind.of? (Path.below root names) = some kind
  named : (Path.below root names).fileName? = some name
  filled : (Path.splitExtension name).1 ≠ []
  shape : Named kind (Path.splitExtension name).1 name

namespace Source

variable {tree : Tree} {root : Path}

def path (source : Source tree root) : Path := Path.below root source.names

def stem (source : Source tree root) : Text := (Path.splitExtension source.name).1

theorem names_eq (source : Source tree root) (nonempty : root ≠ []) (filled : source.names ≠ []) :
    source.names = source.names.dropLast ++ [source.name] := by
  have last := (Path.fileName?_eq_some_iff.mp source.named).1
  rw [Path.components_below nonempty source.walked.proper, List.getLast?_append_of_ne_nil _ filled] at last
  exact List.dropLast_append_getLast? _ last |>.symm

theorem eq_of_alone (one two : Source tree root) (member : two.path ∈ tree.walk root) (alone : one.names = []) :
    two.path = one.path := by
  rw [one.walked.alone alone, List.mem_singleton] at member
  rw [member, path, alone]
  rfl

end Source

def image (workspace : Workspace) (names : List Text) : Location :=
  (workspace.outDir.getD workspace.root).place ++ names

structure Rooted (workspace : Workspace) : Prop where
  root : workspace.root.isAbsolute = true
  outDir : ∀ outDir, workspace.outDir = some outDir → outDir.isAbsolute = true

theorem extension_js : Path.Extension "js".toList := ⟨by decide, 'j', by decide, by decide⟩

theorem extension_out_html : Path.Extension "out.html".toList := ⟨by decide, 'o', by decide, by decide⟩

section
variable {tree : Tree} {job : Job} (source : Source tree job.workspace.root)

theorem kindOf_path : kindOf source.path = source.kind := by
  rw [kindOf, Source.path, source.of_kind]
  rfl

theorem output_beside (beside : job.workspace.outDir = none) :
    job.output source.path =
      source.path.withExtension (match source.kind with | .script => "js".toList | .page => "out.html".toList) := by
  rw [Job.output, kindOf_path]
  unfold Workspace.target
  rw [beside]
  cases source.kind <;> rfl

theorem output_outDir (rooted : Rooted job.workspace) {outDir : Path} (given : job.workspace.outDir = some outDir) :
    job.output source.path =
      match source.kind with
      | .script => (outDir.join (Path.below [] source.names)).withExtension "js".toList
      | .page => outDir.join (Path.below [] source.names) := by
  rw [Job.output, kindOf_path]
  unfold Workspace.target
  rw [given, Source.path, Path.relative?_below rooted.root source.walked.proper]
  cases source.kind <;> rfl

theorem place_output (rooted : Rooted job.workspace)
    (usual : source.names ≠ [] ∨ job.workspace.outDir = none) :
    (job.output source.path).place = (image job.workspace source.names).dropLast ++
      [resultName job.workspace.outDir source.kind source.stem source.name] := by
  have nonempty := Path.ne_nil_of_absolute rooted.root
  rw [image]
  cases given : job.workspace.outDir with
  | none =>
    have here : source.path.place = job.workspace.root.place ++ source.names :=
      Path.place_below nonempty source.walked.proper
    rw [output_beside source given, Option.getD_none, ← here]
    cases source.kind with
    | script => exact Path.place_withExtension source.named extension_js
    | page => exact Path.place_withExtension source.named extension_out_html
  | some outDir =>
    have filled := usual.resolve_right (by rw [given]; nofun)
    have outside := Path.ne_nil_of_absolute (rooted.outDir outDir given)
    have there : (Path.below outDir source.names).place = outDir.place ++ source.names :=
      Path.place_below outside source.walked.proper
    have split := source.names_eq nonempty filled
    rw [output_outDir source rooted given, Option.getD_some, Path.join_below outside filled source.walked.proper,
      ← there]
    cases source.kind with
    | script =>
      have named : (Path.below outDir source.names).fileName? = some source.name := by
        apply Path.fileName?_eq_some_iff.mpr
        refine ⟨?_, (Path.fileName?_eq_some_iff.mp source.named).2⟩
        rw [Path.components_below outside source.walked.proper, List.getLast?_append_of_ne_nil _ filled, split,
          List.getLast?_concat]
      exact Path.place_withExtension named extension_js
    | page =>
      dsimp only
      rw [there, List.dropLast_append_of_ne_nil filled, List.append_assoc]
      exact congrArg (outDir.place ++ ·) split

end

theorem dropLast_image {workspace : Workspace} {names : List Text} (filled : names ≠ []) :
    (image workspace names).dropLast = (workspace.outDir.getD workspace.root).place ++ names.dropLast :=
  List.dropLast_append_of_ne_nil filled

theorem path_eq {tree : Tree} {root : Path} (source : Source tree root) (nonempty : root ≠ [])
    (filled : source.names ≠ []) :
    source.path = (Path.below root source.names.dropLast).join source.name := by
  rw [Source.path, ← Path.below_snoc, ← source.names_eq nonempty filled]

section
variable {tree : Tree} {job : Job} {one two : Source tree job.workspace.root}

theorem eq_or_twins (rooted : Rooted job.workspace) (first : one.path ∈ tree.walk job.workspace.root)
    (second : two.path ∈ tree.walk job.workspace.root)
    (same : (job.output one.path).place = (job.output two.path).place) :
    one.path = two.path ∨ job.workspace.outDir = none ∧ ∃ stem, TwinsOf stem one.path two.path := by
  have nonempty := Path.ne_nil_of_absolute rooted.root
  by_cases alone : one.names = []
  · exact .inl (one.eq_of_alone two second alone).symm
  by_cases alone' : two.names = []
  · exact .inl (two.eq_of_alone one first alone')
  rw [place_output one rooted (.inl alone), place_output two rooted (.inl alone'), dropLast_image alone,
    dropLast_image alone'] at same
  obtain ⟨above, results⟩ := List.append_inj' same rfl
  have above := List.append_cancel_left above
  rcases resultName_eq one.shape two.shape (List.cons.inj results).1 with names | ⟨beside, twins⟩
  · refine .inl ?_
    rw [path_eq one nonempty alone, path_eq two nonempty alone', above, names]
  · refine .inr ⟨beside, (Path.below job.workspace.root one.names.dropLast).join one.stem, ?_⟩
    rw [path_eq one nonempty alone, path_eq two nonempty alone', ← above]
    exact twins.join _ one.filled

end

/-! ### What the globs keep out -/

/-- An output directory that the workspace sees as names joined by slashes, none with a bracket, a brace or a
backslash. -/
def Spelled (root outDir : Path) : Prop :=
  ∃ names, names ≠ [] ∧ (∀ name ∈ names, Path.Proper name ∧ Glob.isUnbracketed name = true) ∧
    Path.relative? root outDir = some (Path.below [] names)

theorem mem_ignores {workspace : Workspace} {patterns : List Text} {globs : List Glob} {pattern : Text} {glob : Glob}
    (read : ignores workspace patterns = .ok globs)
    (own : pattern ∈ defaultIgnores ++ (outDirIgnore workspace).toList) (parsed : Glob.parse pattern = .ok glob) :
    glob ∈ globs := by
  rw [ignores] at read
  cases given : patterns.mapM parseIgnore with
  | error error =>
    rw [given] at read
    cases read
  | ok first =>
    rw [given] at read
    cases read
    apply List.mem_append_right
    apply List.mem_filterMap.mpr
    exact ⟨pattern, own, by rw [parsed]; rfl⟩

section
variable {tree : Tree} {workspace : Workspace} {patterns : List Text} {globs : List Glob} {path : Path}

theorem not_accepted (collected : path ∈ collect tree workspace globs) {glob : Glob} (member : glob ∈ globs) :
    glob.accepts (workspace.shown path) = false := by
  obtain ⟨_, kept⟩ := List.mem_filter.mp collected
  rw [Bool.and_eq_true, Bool.not_eq_true', List.any_eq_false] at kept
  exact Bool.eq_false_iff.mpr (kept.2 glob member)

theorem shown_ne_result (read : ignores workspace patterns = .ok globs)
    (collected : path ∈ collect tree workspace globs) (front : Text) :
    workspace.shown path ≠ front ++ ".out.html".toList := by
  intro shown
  have parsed := @Glob.parse_ending ".out.html".toList (by decide) (by decide)
  have own : "**/*".toList ++ ".out.html".toList ∈ defaultIgnores ++ (outDirIgnore workspace).toList :=
    List.mem_append_left _ (by decide)
  have refused := not_accepted collected (mem_ignores read own parsed)
  rw [shown, Glob.accepts_ending] at refused
  cases refused

theorem isUnbracketed_names {names : List Text} (plain : ∀ name ∈ names, Glob.isUnbracketed name = true) :
    Glob.isUnbracketed (names.flatMap ('/' :: ·)) = true := by
  induction names with
  | nil => rfl
  | cons name names ih =>
    obtain ⟨first, rest⟩ := List.forall_mem_cons.mp plain
    rw [List.flatMap_cons, Glob.isUnbracketed_append, ih rest, Bool.and_true]
    exact first

theorem shown_not_below (read : ignores workspace patterns = .ok globs)
    (collected : path ∈ collect tree workspace globs) {outDir : Path} (given : workspace.outDir = some outDir)
    {names more : List Text} (filled : names ≠ []) (further : more ≠ [])
    (proper : ∀ name ∈ names, Path.Proper name ∧ Glob.isUnbracketed name = true)
    (proper' : ∀ name ∈ more, Path.Proper name)
    (seen : Path.relative? workspace.root outDir = some (Path.below [] names)) :
    workspace.shown path ≠ Path.below [] (names ++ more) := by
  intro shown
  obtain ⟨first, rest, rfl⟩ := List.exists_cons_of_ne_nil filled
  obtain ⟨next, later, rfl⟩ := List.exists_cons_of_ne_nil further
  have head := proper first List.mem_cons_self
  have inner : ∀ name ∈ first :: rest, Path.Proper name := fun name member => (proper name member).1
  have text := Path.below_cons inner
  have plain : Glob.isUnbracketed (Path.below [] (first :: rest)) = true := by
    rw [text, Glob.isUnbracketed_append, head.2,
      isUnbracketed_names fun name member => (proper name (List.mem_cons_of_mem first member)).2]
    rfl
  obtain ⟨glob, parsed, accepted⟩ := Glob.accepts_below plain
  have own : Path.below [] (first :: rest) ++ "/**".toList ∈ defaultIgnores ++ (outDirIgnore workspace).toList := by
    apply List.mem_append_right
    have nonempty : Path.below [] (first :: rest) ≠ [] := by
      rw [text]
      simp [head.1.1.1]
    have pattern : outDirIgnore workspace = some (Path.below [] (first :: rest) ++ "/**".toList) := by
      rw [outDirIgnore, given]
      simp only [Option.bind_eq_bind, Option.bind_some, seen, if_neg nonempty]
    rw [pattern]
    exact List.mem_singleton_self _
  have refused := not_accepted collected (mem_ignores read own parsed)
  obtain ⟨c, name, rfl⟩ := List.exists_cons_of_ne_nil (proper' next List.mem_cons_self).1.1
  have inside : Path.below [] (first :: rest ++ (c :: name) :: later) =
      Path.below [] (first :: rest) ++ '/' :: c :: (name ++ later.flatMap ('/' :: ·)) := by
    have whole : ∀ other ∈ first :: (rest ++ (c :: name) :: later), Path.Proper other :=
      List.forall_mem_append.mpr ⟨inner, proper'⟩
    rw [List.cons_append, Path.below_cons whole, text]
    simp
  rw [shown, inside, accepted] at refused
  cases refused

end

/-! ### Sources that are overwritten -/

theorem name_ne_js {kind : SourceKind} {stem name : Text} (named : Named kind stem name) (other : Text) :
    name ≠ other ++ ".js".toList := by
  cases named with
  | script => exact ending_ne (by decide)
  | html => exact ending_ne (by decide)
  | htm => exact ending_ne (by decide)

theorem name_ne_out {stem name : Text} (named : Named .page stem name) : name ≠ stem ++ ".out.html".toList := by
  intro same
  cases named with
  | html => exact absurd (List.append_cancel_left same) (by decide)
  | htm => exact absurd (List.append_cancel_left same) (by decide)

theorem name_of_place {tree : Tree} {root : Path} (source : Source tree root) {above : Location} {name : Text}
    (place : above ++ [name] = source.path.place) : source.name = name := by
  have here : source.path.place = _ ++ [source.name] := Path.place_of_fileName? source.named
  rw [here] at place
  exact (List.cons.inj (List.append_inj' place rfl).2).1.symm

theorem place_of_relative? {root outDir : Path} {names : List Text} (proper : ∀ name ∈ names, Path.Proper name)
    (seen : Path.relative? root outDir = some (Path.below [] names)) : outDir.place = root.place ++ names := by
  rw [Path.place_eq_components, Path.components_of_relative? seen, Path.components_names proper, List.foldl_append,
    ← Path.place_eq_components, Path.foldl_step_of_proper _ proper]

theorem place_output_alone {tree : Tree} {job : Job} {one : Source tree job.workspace.root}
    (rooted : Rooted job.workspace) {outDir : Path} (given : job.workspace.outDir = some outDir)
    (alone : one.names = []) :
    (job.output one.path).place = outDir.place ∨
      ∃ above stem, (job.output one.path).place = above ++ [stem ++ ".js".toList] := by
  have nonempty := Path.ne_nil_of_absolute (rooted.outDir outDir given)
  have empty : Path.below [] one.names = [] := by
    rw [alone]
    rfl
  have place : (outDir.join []).place = outDir.place := by
    rw [Path.place_eq_components, Path.components_join rfl nonempty, Path.place_eq_components]
    exact congrArg (List.foldl Tree.step []) (List.append_nil _)
  rw [output_outDir one rooted given, empty]
  cases one.kind with
  | page => exact .inl place
  | script =>
    dsimp only
    cases named : (outDir.join []).fileName? with
    | none =>
      rw [Path.withExtension, named]
      exact .inl place
    | some name =>
      rw [Path.place_withExtension named extension_js]
      exact .inr ⟨_, _, rfl⟩

section
variable {tree other : Tree} {job : Job} {patterns : List Text} {globs : List Glob}
  {one : Source tree job.workspace.root} {two : Source other job.workspace.root}

theorem ne_source_beside (rooted : Rooted job.workspace) (read : ignores job.workspace patterns = .ok globs)
    (alike : two.names = [] → one.names = []) (second : two.path ∈ collect other job.workspace globs)
    (beside : job.workspace.outDir = none) : (job.output one.path).place ≠ two.path.place := by
  intro same
  have nonempty := Path.ne_nil_of_absolute rooted.root
  rw [place_output one rooted (.inr beside), beside] at same
  have named := name_of_place two same
  cases kind : one.kind with
  | script =>
    rw [kind] at named
    exact name_ne_js two.shape _ named
  | page =>
    rw [kind] at named
    by_cases alone : two.names = []
    · have name : one.name = two.name := by
        have names := one.named
        rw [alike alone, ← alone, two.named] at names
        exact (Option.some.inj names).symm
      have page : Named .page one.stem one.name := kind ▸ one.shape
      exact name_ne_out page (name.trans named)
    · have seen := Path.relative?_below rooted.root two.walked.proper
      have relative : Path.isAbsolute two.name = false :=
        Path.not_absolute_of_component (Path.proper_of_fileName? two.named).1
      obtain ⟨front, joined⟩ := Path.exists_front_join (Path.below [] two.names.dropLast) relative
      apply shown_ne_result read second (front ++ one.stem)
      rw [Workspace.shown, Source.path, seen, Option.getD_some, two.names_eq nonempty alone, Path.below_snoc, joined,
        named, List.append_assoc]
      rfl

/-- In an output directory that the globs recognise a result is no source, neither now nor in a later tree. -/
theorem ne_source_in_outDir (rooted : Rooted job.workspace) (read : ignores job.workspace patterns = .ok globs)
    (alike : one.names = [] → two.names = []) (second : two.path ∈ collect other job.workspace globs) {outDir : Path}
    (given : job.workspace.outDir = some outDir) (spelled : Spelled job.workspace.root outDir) :
    (job.output one.path).place ≠ two.path.place := by
  intro same
  obtain ⟨names, filled, proper, seen⟩ := spelled
  have nonempty := Path.ne_nil_of_absolute rooted.root
  have here : two.path.place = job.workspace.root.place ++ two.names :=
    Path.place_below nonempty two.walked.proper
  have inside := place_of_relative? (fun name member => (proper name member).1) seen
  by_cases alone : one.names = []
  · rcases place_output_alone rooted given alone with place | ⟨above, stem, place⟩
    · rw [place, inside, here, alike alone] at same
      exact filled (List.append_cancel_left same)
    · rw [place] at same
      exact absurd (name_of_place two same) (name_ne_js two.shape stem)
  · rw [place_output one rooted (.inl alone), dropLast_image alone, given, Option.getD_some] at same
    have named := name_of_place two same
    cases kind : one.kind with
    | script =>
      rw [kind] at named
      exact name_ne_js two.shape _ named
    | page =>
      have whole : two.names = names ++ one.names := by
        have page : resultName (some outDir) one.kind one.stem one.name = one.name := by
          rw [kind]
          rfl
        rw [page, List.append_assoc, ← one.names_eq nonempty alone, inside, here, List.append_assoc] at same
        exact (List.append_cancel_left same).symm
      apply shown_not_below read second given filled alone proper one.walked.proper seen
      rw [Workspace.shown, Source.path, Path.relative?_below rooted.root two.walked.proper, Option.getD_some, whole]

end

section
variable {tree : Tree} {job : Job} {patterns : List Text} {globs : List Glob}
  {one two : Source tree job.workspace.root}

theorem names_of_alone (rooted : Rooted job.workspace) (walked : two.path ∈ tree.walk job.workspace.root)
    (alone : one.names = []) : two.names = [] := by
  have nonempty := Path.ne_nil_of_absolute rooted.root
  have places := congrArg Path.place (one.eq_of_alone two walked alone)
  rw [Source.path, Source.path, Path.place_below nonempty two.walked.proper, alone] at places
  exact List.append_right_eq_self.mp places

theorem not_overwritten_beside (rooted : Rooted job.workspace) (read : ignores job.workspace patterns = .ok globs)
    (first : one.path ∈ tree.walk job.workspace.root) (second : two.path ∈ collect tree job.workspace globs)
    (beside : job.workspace.outDir = none) : (job.output one.path).place ≠ two.path.place :=
  ne_source_beside rooted read (names_of_alone rooted first) second beside

theorem overwritten_in_outDir (rooted : Rooted job.workspace) (read : ignores job.workspace patterns = .ok globs)
    (second : two.path ∈ collect tree job.workspace globs) {outDir : Path}
    (given : job.workspace.outDir = some outDir) (same : (job.output one.path).place = two.path.place) :
    outDir.place <+: two.path.place ∧ ¬ Spelled job.workspace.root outDir := by
  have walked : two.path ∈ tree.walk job.workspace.root := (List.mem_filter.mp second).1
  constructor
  · by_cases alone : one.names = []
    · rcases place_output_alone rooted given alone with place | ⟨above, stem, place⟩
      · have here : outDir.place = two.path.place := place.symm.trans same
        exact here ▸ List.prefix_refl _
      · rw [place] at same
        exact absurd (name_of_place two same) (name_ne_js two.shape stem)
    · rw [← same, place_output one rooted (.inl alone), dropLast_image alone, given, Option.getD_some, List.append_assoc]
      exact List.prefix_append _ _
  · intro spelled
    exact ne_source_in_outDir rooted read (names_of_alone rooted walked) second given spelled same

end

/-! ### Results on the way to others -/

section
variable {tree : Tree} {job : Job} {one two : Source tree job.workspace.root}

theorem way_beside (beside : job.workspace.outDir = none) : (job.output one.path).way = one.path.way := by
  have extends_ : Path.Extension
      (match one.kind with | .script => "js".toList | .page => "out.html".toList) := by
    cases one.kind with
    | script => exact extension_js
    | page => exact extension_out_html
  rw [output_beside one beside, Path.way, Path.way, Source.path, Path.components_withExtension one.named extends_,
    List.dropLast_concat]

theorem found_on_way (source : Source tree job.workspace.root) {location : Location}
    (member : location ∈ source.path.way) : tree.get? location ≠ none := by
  have step : location ∈ Tree.along [] source.path.steps :=
    Tree.mem_along_filter.mp (Tree.mem_along_of_dropLast member)
  rcases Tree.passed_of_follow source.walked.resolved location step with directory | last
  · rw [directory]
    nofun
  · obtain ⟨content, file⟩ := source.walked.file
    rw [last, file]
    nofun

theorem proper_output (rooted : Rooted job.workspace) (source : Source tree job.workspace.root) {outDir : Path}
    (given : job.workspace.outDir = some outDir) (proper : ∀ name ∈ outDir.components, Path.Proper name) :
    ∀ name ∈ (job.output source.path).components, Path.Proper name := by
  have nonempty := Path.ne_nil_of_absolute (rooted.outDir outDir given)
  have whole : (outDir.join (Path.below [] source.names)).components = outDir.components ++ source.names := by
    rw [Path.components_join (Path.not_absolute_names source.walked.proper) nonempty,
      Path.components_names source.walked.proper]
  have both : ∀ name ∈ (outDir.join (Path.below [] source.names)).components, Path.Proper name := by
    intro name member
    rw [whole] at member
    rcases List.mem_append.mp member with outer | inner
    · exact proper name outer
    · exact source.walked.proper name inner
  rw [output_outDir source rooted given]
  cases source.kind with
  | page => exact both
  | script =>
    dsimp only
    cases named : (outDir.join (Path.below [] source.names)).fileName? with
    | none =>
      rw [Path.withExtension, named]
      exact both
    | some last =>
      rw [Path.components_withExtension named extension_js]
      intro name member
      rcases List.mem_append.mp member with above | extended
      · exact both name (List.dropLast_subset _ above)
      · rw [List.mem_singleton.mp extended]
        exact Path.proper_extended (Path.proper_of_fileName? named) extension_js

/-- A missing place for one result is on the way to another only in an output directory: if the path of the
directory leads upwards, or if a script has the name of a directory with sources for its result. -/
theorem missing_on_way (formed : tree.WellFormed) (rooted : Rooted job.workspace)
    (first : one.path ∈ tree.walk job.workspace.root) (second : two.path ∈ tree.walk job.workspace.root)
    (missing : tree.get? (job.output one.path).place = none)
    (through : (job.output one.path).place ∈ (job.output two.path).way) :
    ∃ outDir, job.workspace.outDir = some outDir ∧
      ("..".toList ∈ outDir.components ∨ (one.path.withExtension "js".toList).place <+: two.path.place) := by
  have nonempty := Path.ne_nil_of_absolute rooted.root
  cases given : job.workspace.outDir with
  | none =>
    rw [way_beside given] at through
    exact absurd missing (found_on_way two through)
  | some outDir =>
    refine ⟨outDir, rfl, ?_⟩
    by_cases up : "..".toList ∈ outDir.components
    · exact .inl up
    refine .inr ?_
    have proper : ∀ name ∈ outDir.components, Path.Proper name := by
      intro name member
      exact ⟨Path.component_of_mem member, fun dots => up (dots ▸ member)⟩
    have above := Path.prefix_of_mem_way (proper_output rooted two given proper) through
    have apart : one.path ≠ two.path := by
      intro same
      rw [same] at above missing
      have short := above.length_le
      rw [List.length_dropLast] at short
      have root : (job.output two.path).place = [] := List.length_eq_zero_iff.mp (by omega)
      rw [root, Tree.get?_root] at missing
      cases missing
    have filled : one.names ≠ [] := fun alone => apart (one.eq_of_alone two second alone).symm
    have filled' : two.names ≠ [] := fun alone => apart (two.eq_of_alone one first alone)
    rw [place_output one rooted (.inl filled), place_output two rooted (.inl filled'), List.dropLast_concat,
      dropLast_image filled, dropLast_image filled', List.append_assoc, List.prefix_append_right_inj] at above
    have here : one.path.place = job.workspace.root.place ++ one.names := Path.place_below nonempty one.walked.proper
    have there : two.path.place = job.workspace.root.place ++ two.names := Path.place_below nonempty two.walked.proper
    cases kind : one.kind with
    | script =>
      rw [kind] at above
      have moved : (one.path.withExtension "js".toList).place = one.path.place.dropLast ++ [one.stem ++ ".js".toList] :=
        Path.place_withExtension one.named extension_js
      rw [moved, here, there, List.dropLast_append_of_ne_nil filled, List.append_assoc, List.prefix_append_right_inj]
      exact above.trans (List.dropLast_prefix _)
    | page =>
      -- a page keeps its name, so a file would be a directory
      have page : resultName job.workspace.outDir one.kind one.stem one.name = one.name := by
        rw [kind, given]
        rfl
      rw [page, ← one.names_eq nonempty filled] at above
      obtain ⟨rest, split⟩ := above
      obtain ⟨content, file⟩ := one.walked.file
      obtain ⟨content', file'⟩ := two.walked.file
      have inside : two.path.place = one.path.place ++ (rest ++ [two.name]) := by
        rw [there, here, two.names_eq nonempty filled', ← split]
        simp only [List.append_assoc]
      rw [← Source.path, inside] at file'
      have directory := Tree.get?_above formed (by simp) file'
      rw [Source.path, file] at directory
      cases directory

end
end TagCalls.Run
