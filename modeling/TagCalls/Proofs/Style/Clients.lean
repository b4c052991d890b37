import Mathlib.Logic.Relation
import TagCalls.Proofs.Style.Sheet

/-!
One sheet that several clients register styles with. A registration is one step, and the clients take
their steps in any order. What a client gets back does not depend on the others, and neither does the
number of rules; the rules themselves do not either, unless contents share a name. Main statement:
`registrations_commute`.
-/
namespace TagCalls.Style

structure Client where
  waiting : List Request
  returned : List Text := []

structure Shared where
  clients : List Client
  sheet : Sheet := {}

inductive Shared.Step : Shared → Shared → Prop
  | register {before after : List Client} {request : Request} {waiting : List Request} {returned : List Text}
      {sheet next : Sheet} {name : Text} :
      sheet.register request.kind request.parts request.values = (name, next) →
      Step ⟨before ++ ⟨request :: waiting, returned⟩ :: after, sheet⟩
        ⟨before ++ ⟨waiting, returned ++ [name]⟩ :: after, next⟩

/-- An interleaving of what the clients have to do: the names that each of them gets, and the sheet at
the end. -/
def Interleaved (scripts : List (List Request)) (answers : List (List Text)) (sheet : Sheet) : Prop :=
  Relation.ReflTransGen Shared.Step ⟨scripts.map ({ waiting := · }), {}⟩ ⟨answers.map (⟨[], ·⟩), sheet⟩

def Unshared (requests : List Request) : Prop :=
  ∀ one ∈ requests, ∀ two ∈ requests, one.kind = two.kind → one.rule.name = two.rule.name →
    one.content = two.content

/-! ### One step -/

def Shared.rest (shared : Shared) : List Request := shared.clients.flatMap (·.waiting)

def Shared.names (shared : Shared) : List (List Text) :=
  shared.clients.map fun client => client.returned ++ client.waiting.map (·.rule.name)

/-- The sheet is that of some registrations in a row, which are those that the clients have made. -/
structure Shared.Sound (scripts : List (List Request)) (shared : Shared) : Prop where
  names : shared.names = scripts.map (·.map (·.rule.name))
  history : ∃ requests, shared.sheet = (Sheet.registerAll {} requests).2 ∧
    (requests ++ shared.rest).Perm scripts.flatten

theorem registerAll_snoc (requests : List Request) (request : Request) :
    (Sheet.registerAll {} (requests ++ [request])).2 =
      (Sheet.registerAll {} requests).2.insert request.rule := by
  simp only [registerAll_eq, List.map_append, List.foldl_append]
  rfl

theorem sound_step {scripts : List (List Request)} {shared next : Shared} (step : shared.Step next)
    (sound : shared.Sound scripts) : next.Sound scripts := by
  cases step with
  | @register before after request waiting returned sheet next name registered =>
    rw [register_eq] at registered
    cases registered
    constructor
    · rw [← sound.names]
      simp [Shared.names]
    · obtain ⟨requests, same, all⟩ := sound.history
      refine ⟨requests ++ [request], ?_, ?_⟩
      · rw [registerAll_snoc, ← same]
      · -- the request moves from the front of its client's list to the end of the history
        have moved : (requests ++ [request] ++ (before.flatMap (·.waiting) ++ (waiting ++ after.flatMap (·.waiting)))).Perm
            (requests ++ (before.flatMap (·.waiting) ++ request :: (waiting ++ after.flatMap (·.waiting)))) := by
          rw [List.append_assoc, List.singleton_append]
          exact List.Perm.append_left requests List.perm_middle.symm
        simp only [Shared.rest, List.flatMap_append, List.flatMap_cons, List.cons_append] at all ⊢
        exact moved.trans all

/-! ### Whole interleavings -/

theorem sound_initial (scripts : List (List Request)) :
    Shared.Sound scripts ⟨scripts.map ({ waiting := · }), {}⟩ where
  names := by simp [Shared.names]
  history := by
    refine ⟨[], rfl, ?_⟩
    simp [Shared.rest, List.flatMap_map, List.flatMap_id']

theorem sound_run {scripts : List (List Request)} {shared : Shared}
    (course : Relation.ReflTransGen Shared.Step ⟨scripts.map ({ waiting := · }), {}⟩ shared) :
    shared.Sound scripts := by
  induction course with
  | refl => exact sound_initial scripts
  | tail _ step ih => exact sound_step step ih

section
variable {scripts : List (List Request)} {answers : List (List Text)} {sheet : Sheet}

theorem answers_of_interleaved (interleaved : Interleaved scripts answers sheet) :
    answers = scripts.map (·.map (·.rule.name)) := by
  have names := (sound_run interleaved).names
  simpa [Shared.names, Function.comp_def] using names

theorem history_of_interleaved (interleaved : Interleaved scripts answers sheet) :
    ∃ requests, sheet = (Sheet.registerAll {} requests).2 ∧ requests.Perm scripts.flatten := by
  obtain ⟨requests, same, all⟩ := (sound_run interleaved).history
  have nothing : Shared.rest ⟨answers.map (⟨[], ·⟩), sheet⟩ = [] := List.flatMap_eq_nil_iff.mpr (by simp)
  rw [nothing, List.append_nil] at all
  exact ⟨requests, same, all⟩

end

theorem size_of_perm {one two : List Request} (same : one.Perm two) :
    (Sheet.registerAll {} one).2.size = (Sheet.registerAll {} two).2.size := by
  rw [size_registerAll, size_registerAll, List.toFinset_eq_of_perm _ _ (same.map _)]

theorem kind_of_name {one two : Request} (same : one.rule.name = two.rule.name) : one.kind = two.kind := by
  obtain ⟨kind, parts, values⟩ := one
  obtain ⟨kind', parts', values'⟩ := two
  cases kind with
  | css =>
    cases kind' with
    | css => rfl
    | keyframes => exact absurd same (name_css_ne_keyframes _ _)
  | keyframes =>
    cases kind' with
    | css => exact absurd same.symm (name_css_ne_keyframes _ _)
    | keyframes => rfl

theorem mem_firsts_rules {requests : List Request} (unshared : Unshared requests) (rule : Rule) :
    rule ∈ firsts Rule.name (requests.map (·.rule)) ↔ ∃ request ∈ requests, request.rule = rule := by
  constructor
  · intro member
    exact List.mem_map.mp (firsts_subset _ member)
  · intro found
    obtain ⟨request, inside, rfl⟩ := found
    have listed : request.rule ∈ requests.map (·.rule) := List.mem_map_of_mem inside
    obtain ⟨first, earlier, same⟩ := exists_first Rule.name listed
    obtain ⟨other, among, rfl⟩ := List.mem_map.mp (firsts_subset _ earlier)
    have kinds := kind_of_name same
    have rules : other.rule = request.rule := by
      rw [Request.rule, Request.rule, kinds, unshared other among request inside kinds same]
    rw [← rules]
    exact earlier

theorem nodup_firsts_rules (rules : List Rule) : (firsts Rule.name rules).Nodup :=
  (nodup_map_firsts rules).of_map

/-- Two interleavings of the same registrations return the same name for each of them and give as many
rules. If no contents share a name, both sheets are the rules of all registrations, each of them once, in
some order. -/
theorem registrations_commute (scripts : List (List Request)) (answers answers' : List (List Text))
    (sheet sheet' : Sheet) (first : Interleaved scripts answers sheet)
    (second : Interleaved scripts answers' sheet') :
    answers = answers' ∧ sheet.size = sheet'.size ∧
      (Unshared scripts.flatten → ∃ rules rules' : List Rule,
        sheet.text = rules.flatMap (·.text) ∧ sheet'.text = rules'.flatMap (·.text) ∧
        rules.Perm rules' ∧ rules.Nodup ∧
        ∀ rule, rule ∈ rules ↔ ∃ request ∈ scripts.flatten, request.rule = rule) := by
  obtain ⟨requests, rfl, all⟩ := history_of_interleaved first
  obtain ⟨requests', rfl, all'⟩ := history_of_interleaved second
  have same : requests.Perm requests' := all.trans all'.symm
  refine ⟨?_, size_of_perm same, ?_⟩
  · rw [answers_of_interleaved first, answers_of_interleaved second]
  · intro unshared
    have members : ∀ {history : List Request}, history.Perm scripts.flatten → ∀ rule,
        rule ∈ firsts Rule.name (history.map (·.rule)) ↔ ∃ request ∈ scripts.flatten, request.rule = rule := by
      intro history perm rule
      have within : Unshared history := fun one inside two inside' =>
        unshared one (perm.mem_iff.mp inside) two (perm.mem_iff.mp inside')
      rw [mem_firsts_rules within]
      simp only [perm.mem_iff]
    refine ⟨_, _, text_registerAll requests, text_registerAll requests', ?_, nodup_firsts_rules _, members all⟩
    apply (List.perm_ext_iff_of_nodup (nodup_firsts_rules _) (nodup_firsts_rules _)).mpr
    intro rule
    rw [members all, members all']

def classA : Request := ⟨.css, [['a']], []⟩

def framesA : Request := ⟨.keyframes, [['a']], []⟩

def pairScripts : List (List Request) := [[classA], [framesA, classA]]

def pairAnswers : List (List Text) := [[classA.rule.name], [framesA.rule.name, classA.rule.name]]

theorem interleaved_first :
    Interleaved pairScripts pairAnswers (Sheet.registerAll {} [classA, framesA, classA]).2 := by
  refine .head (@Shared.Step.register [] _ classA [] [] _ _ _ rfl) ?_
  refine .head (@Shared.Step.register [⟨[], _⟩] [] framesA [classA] [] _ _ _ rfl) ?_
  exact .single (@Shared.Step.register [⟨[], _⟩] [] classA [] _ _ _ _ rfl)

theorem interleaved_second :
    Interleaved pairScripts pairAnswers (Sheet.registerAll {} [framesA, classA, classA]).2 := by
  refine .head (@Shared.Step.register [⟨[classA], []⟩] [] framesA [classA] [] _ _ _ rfl) ?_
  refine .head (@Shared.Step.register [⟨[classA], []⟩] [] classA [] _ _ _ _ rfl) ?_
  exact .single (@Shared.Step.register [] _ classA [] [] _ _ _ rfl)

/-- The two orders write the two rules in different orders, and there is no third rule. -/
theorem pair_commutes :
    ∃ answers answers' sheet sheet', Interleaved pairScripts answers sheet ∧
      Interleaved pairScripts answers' sheet' ∧ sheet.text ≠ sheet'.text ∧ sheet.size = 2 ∧ sheet'.size = 2 ∧
      answers = answers' ∧ ∃ rules rules' : List Rule,
        sheet.text = rules.flatMap (·.text) ∧ sheet'.text = rules'.flatMap (·.text) ∧ rules.Perm rules' := by
  obtain ⟨same, sizes, ordered⟩ :=
    registrations_commute pairScripts pairAnswers pairAnswers _ _ interleaved_first interleaved_second
  have unshared : Unshared pairScripts.flatten := by
    unfold Unshared
    decide +kernel
  obtain ⟨rules, rules', text, text', perm, _⟩ := ordered unshared
  have two : (Sheet.registerAll {} [classA, framesA, classA]).2.size = 2 := by decide +kernel
  exact ⟨_, _, _, _, interleaved_first, interleaved_second, by decide +kernel, two, sizes ▸ two, same, rules,
    rules', text, text', perm⟩

end TagCalls.Style
