import TagCalls.Proofs.Page.Placement
import TagCalls.Proofs.Page.Process

/-!
Calls that offer code for the blocks of a page, in any order and any number. The emitter keeps for each block
the first code that can be embedded, so the finished page depends on nothing else. Main statement:
`page_of_calls`.
-/
namespace TagCalls.Page

namespace Emitter

/-- The emitter after a call. One that refuses stays as it was. -/
def take (emitter : Emitter) (call : Loaded) : Emitter :=
  match emitter.load call.block call.code with
  | .ok next => next
  | .error _ => emitter

def after (calls : List Loaded) : Emitter := calls.foldl take {}

def codeFor (emitter : Emitter) (block : Block) : Option Text :=
  (emitter.loaded.find? (·.block = block)).map (·.code)

end Emitter

def Accepted (earlier : List Loaded) (call : Loaded) : Prop :=
  ∃ next, (Emitter.after earlier).load call.block call.code = .ok next

/-- The first code offered for a block that can be embedded. -/
def firstCode (calls : List Loaded) (block : Block) : Option Text :=
  (calls.find? fun call => call.block = block ∧ Embeddable call.code).map (·.code)

def firstLoads (blocks : List Block) (calls : List Loaded) : List Loaded :=
  blocks.filterMap fun block => (firstCode calls block).map fun code => ⟨block, code⟩

/-! ### The first code of a block -/

section
variable {calls : List Loaded} {block : Block}

theorem firstCode_cons (call : Loaded) (calls : List Loaded) (block : Block) :
    firstCode (call :: calls) block =
      (if call.block = block ∧ Embeddable call.code then some call.code else none).or (firstCode calls block) := by
  rw [firstCode, List.find?_cons]
  by_cases fits : call.block = block ∧ Embeddable call.code
  · simp [fits]
  · simp [fits, firstCode]

theorem firstCode_eq_none_iff :
    firstCode calls block = none ↔ ∀ call ∈ calls, call.block = block → ¬ Embeddable call.code := by
  simp [firstCode]

theorem firstCode_eq_some_iff {code : Text} :
    firstCode calls block = some code ↔
      Embeddable code ∧ ∃ earlier later, calls = earlier ++ ⟨block, code⟩ :: later ∧
        firstCode earlier block = none := by
  constructor
  · intro first
    rcases Option.map_eq_some_iff.mp first with ⟨call, found, rfl⟩
    rcases List.find?_eq_some_iff_append.mp found with ⟨fits, earlier, later, split, before⟩
    rcases of_decide_eq_true fits with ⟨rfl, embeddable⟩
    refine ⟨embeddable, earlier, later, split, firstCode_eq_none_iff.mpr ?_⟩
    intro other member same embeds
    have absent := before other member
    simp [same, embeds] at absent
  · intro split
    rcases split with ⟨embeddable, earlier, later, rfl, before⟩
    induction earlier with
    | nil => simp [firstCode_cons, embeddable]
    | cons call earlier ih =>
      rw [firstCode_cons, Option.or_eq_none_iff] at before
      rw [List.cons_append, firstCode_cons, before.1, Option.none_or]
      exact ih before.2

end

/-! ### One call and many -/

section
variable {blocks : List Block} {emitter : Emitter}

theorem holds_take (holds : emitter.Holds blocks) {call : Loaded} (known : call.block ∈ blocks) :
    (emitter.take call).Holds blocks := by
  rw [Emitter.take]
  split
  · next accepted => exact holds_load holds known accepted
  · exact holds

variable (ascending : blocks.Pairwise Block.Before)
include ascending

theorem eq_of_id {first second : Block} (one : first ∈ blocks) (two : second ∈ blocks) (same : first.id = second.id) :
    first = second := by
  rcases eq_or_before ascending one two with equal | before | after
  · exact equal
  · exact absurd same (Nat.ne_of_lt before.1)
  · exact absurd same.symm (Nat.ne_of_lt after.1)

theorem load_accepted_iff (holds : emitter.Holds blocks) {block : Block} (known : block ∈ blocks) (code : Text) :
    (∃ next, emitter.load block code = .ok next) ↔ Embeddable code ∧ emitter.codeFor block = none := by
  have lacks : emitter.codeFor block = none ↔ ∀ item ∈ emitter.loaded, item.block.id ≠ block.id := by
    rw [Emitter.codeFor, Option.map_eq_none_iff, List.find?_eq_none]
    constructor
    · intro absent item member same
      exact absent item member (decide_eq_true (eq_of_id ascending (holds.known item member) known same))
    · intro other item member same
      exact other item member (congrArg Block.id (of_decide_eq_true same))
  constructor
  · intro accepted
    rcases accepted with ⟨next, accepted⟩
    rcases (load_eq_ok_iff emitter next block code).mp accepted with ⟨free, other, _⟩
    exact ⟨free, lacks.mpr other⟩
  · intro fits
    exact ⟨_, load_embeddable (lacks.mp fits.2) fits.1⟩

theorem take_cases (holds : emitter.Holds blocks) {call : Loaded} (known : call.block ∈ blocks) :
    (Embeddable call.code ∧ emitter.codeFor call.block = none ∧ emitter.take call = ⟨emitter.loaded ++ [call]⟩) ∨
      (¬ (Embeddable call.code ∧ emitter.codeFor call.block = none) ∧ emitter.take call = emitter) := by
  have accepted := load_accepted_iff ascending holds known call.code
  cases answer : emitter.load call.block call.code with
  | ok next =>
    have fits := accepted.mp ⟨next, answer⟩
    have step := (load_eq_ok_iff emitter next call.block call.code).mp answer
    exact .inl ⟨fits.1, fits.2, by rw [Emitter.take, answer]; exact step.2.2⟩
  | error error =>
    refine .inr ⟨?_, by rw [Emitter.take, answer]⟩
    intro fits
    rcases accepted.mpr fits with ⟨next, other⟩
    rw [answer] at other
    cases other

theorem codeFor_take (holds : emitter.Holds blocks) {call : Loaded} (known : call.block ∈ blocks) (block : Block) :
    (emitter.take call).codeFor block = (emitter.codeFor block).or
      (if call.block = block ∧ Embeddable call.code then some call.code else none) := by
  rcases take_cases ascending holds known with ⟨embeddable, _, step⟩ | ⟨refused, step⟩
  · rw [step, Emitter.codeFor, List.find?_append, Option.map_or, ← Emitter.codeFor]
    by_cases same : call.block = block
    · simp [same, embeddable]
    · simp [same]
  · rw [step]
    by_cases fits : call.block = block ∧ Embeddable call.code
    · rcases fits with ⟨rfl, embeddable⟩
      rcases Option.ne_none_iff_exists'.mp (fun none => refused ⟨embeddable, none⟩) with ⟨code, held⟩
      rw [held]
      rfl
    · rw [if_neg fits, Option.or_none]

theorem run_calls {calls : List Loaded} (holds : emitter.Holds blocks) (known : ∀ call ∈ calls, call.block ∈ blocks) :
    (calls.foldl Emitter.take emitter).Holds blocks ∧ ∀ block,
      (calls.foldl Emitter.take emitter).codeFor block = (emitter.codeFor block).or (firstCode calls block) := by
  induction calls generalizing emitter with
  | nil => exact ⟨holds, fun block => (Option.or_none).symm⟩
  | cons call calls ih =>
    have here := known call List.mem_cons_self
    have rest := ih (holds_take holds here) fun other member => known other (List.mem_cons_of_mem _ member)
    refine ⟨rest.1, ?_⟩
    intro block
    rw [List.foldl_cons, rest.2, codeFor_take ascending holds here, Option.or_assoc, firstCode_cons]

variable {calls : List Loaded} (known : ∀ call ∈ calls, call.block ∈ blocks)
include known

theorem holds_after : (Emitter.after calls).Holds blocks :=
  (run_calls ascending (holds_of_loading .fresh) known).1

theorem codeFor_after (block : Block) : (Emitter.after calls).codeFor block = firstCode calls block :=
  (run_calls ascending (holds_of_loading .fresh) known).2 block

theorem accepted_iff {call : Loaded} (here : call.block ∈ blocks) :
    Accepted calls call ↔ Embeddable call.code ∧ firstCode calls call.block = none := by
  rw [Accepted, load_accepted_iff ascending (holds_after ascending known) here, codeFor_after ascending known]

end

/-! ### The page -/

theorem mem_loaded_iff_codeFor {blocks : List Block} {emitter : Emitter} (holds : emitter.Holds blocks)
    (item : Loaded) : item ∈ emitter.loaded ↔ emitter.codeFor item.block = some item.code := by
  rw [Emitter.codeFor, Option.map_eq_some_iff]
  constructor
  · intro member
    cases found : emitter.loaded.find? (·.block = item.block) with
    | none => exact absurd (decide_eq_true rfl) (List.find?_eq_none.mp found item member)
    | some other =>
      rcases List.find?_eq_some_iff_append.mp found with ⟨same, front, back, split, before⟩
      refine ⟨other, rfl, ?_⟩
      have once := holds.once
      rw [split] at member once
      -- The item found is the first one for its block, and there is no second.
      rcases List.mem_append.mp member with earlier | later
      · have absent := before item earlier
        simp at absent
      · rcases List.mem_cons.mp later with rfl | behind
        · rfl
        · have differ := (List.pairwise_cons.mp (List.pairwise_append.mp once).2.1).1 item behind
          exact absurd (congrArg Block.id (of_decide_eq_true same)) differ
  · intro held
    rcases held with ⟨other, found, same⟩
    have picked := List.find?_some found
    have block : other.block = item.block := of_decide_eq_true picked
    have equal : other = item := by
      cases other
      cases item
      cases block
      cases same
      rfl
    rw [← equal]
    exact List.mem_of_find?_eq_some found

theorem inPageOrder_after {blocks : List Block} (ascending : blocks.Pairwise Block.Before) {calls : List Loaded}
    (known : ∀ call ∈ calls, call.block ∈ blocks) : (Emitter.after calls).inPageOrder = firstLoads blocks calls := by
  have holds := holds_after ascending known
  have irrefl : Std.Irrefl fun first second : Loaded => first.block.element.start < second.block.element.start :=
    ⟨fun _ => Nat.lt_irrefl _⟩
  have antisymm : Std.Antisymm fun first second : Loaded => first.block.element.start < second.block.element.start :=
    ⟨fun _ _ below above => absurd above (Nat.lt_asymm below)⟩
  apply List.Pairwise.eq_of_mem_iff (Emitter.inPageOrder_pairwise holds ascending)
  · apply ascending.filterMap
    intro first second before one oneCode two twoCode
    rcases Option.map_eq_some_iff.mp oneCode with ⟨_, _, rfl⟩
    rcases Option.map_eq_some_iff.mp twoCode with ⟨_, _, rfl⟩
    exact before.2
  · intro item
    rw [(Emitter.inPageOrder_perm _).mem_iff, firstLoads, List.mem_filterMap]
    constructor
    · intro member
      refine ⟨item.block, holds.known item member, ?_⟩
      rw [← codeFor_after ascending known, (mem_loaded_iff_codeFor holds item).mp member]
      rfl
    · intro found
      rcases found with ⟨block, _, loads⟩
      rcases Option.map_eq_some_iff.mp loads with ⟨code, first, rfl⟩
      rw [mem_loaded_iff_codeFor holds, codeFor_after ascending known]
      exact first

structure Settled (document : Text) (blocks : List Block) (calls : List Loaded) : Prop where
  /-- A call is accepted if its code can be embedded and no earlier call for its block was accepted. -/
  accepted : ∀ earlier call later, calls = earlier ++ call :: later →
    (Accepted earlier call ↔ Embeddable call.code ∧ ∀ before other between,
      earlier = before ++ other :: between → other.block = call.block → ¬ Accepted before other)
  refused : ∀ earlier call later, calls = earlier ++ call :: later → ¬ Accepted earlier call →
    Emitter.after (earlier ++ [call]) = Emitter.after earlier
  /-- The first code that can be embedded is the one that was accepted. -/
  first : ∀ block code, firstCode calls block = some code ↔
    ∃ earlier later, calls = earlier ++ ⟨block, code⟩ :: later ∧ Accepted earlier ⟨block, code⟩
  page : ∃ page, (Emitter.after calls).finish? document = some page ∧
    Embeds document (firstLoads blocks calls) page

section
variable {blocks : List Block} (ascending : blocks.Pairwise Block.Before) {calls : List Loaded}
  (known : ∀ call ∈ calls, call.block ∈ blocks)
include ascending known

theorem firstCode_accepted (block : Block) (code : Text) :
    firstCode calls block = some code ↔
      ∃ earlier later, calls = earlier ++ ⟨block, code⟩ :: later ∧ Accepted earlier ⟨block, code⟩ := by
  rw [firstCode_eq_some_iff]
  constructor
  · intro first
    rcases first with ⟨embeddable, earlier, later, rfl, none⟩
    rcases List.forall_mem_append.mp known with ⟨before, rest⟩
    have here := rest _ List.mem_cons_self
    exact ⟨earlier, later, rfl, (accepted_iff ascending before here).mpr ⟨embeddable, none⟩⟩
  · intro split
    rcases split with ⟨earlier, later, rfl, accepted⟩
    rcases List.forall_mem_append.mp known with ⟨before, rest⟩
    have here := rest _ List.mem_cons_self
    have fits := (accepted_iff ascending before here).mp accepted
    exact ⟨fits.1, earlier, later, rfl, fits.2⟩

theorem firstCode_none_accepted (block : Block) :
    firstCode calls block = none ↔ ∀ before other between, calls = before ++ other :: between →
      other.block = block → ¬ Accepted before other := by
  constructor
  · intro none before other between split same accepted
    have some := (firstCode_accepted ascending known other.block other.code).mpr ⟨before, between, split, accepted⟩
    rw [same, none] at some
    cases some
  · intro never
    cases first : firstCode calls block with
    | none => rfl
    | some code =>
      rcases (firstCode_accepted ascending known block code).mp first with ⟨earlier, later, split, accepted⟩
      exact absurd accepted (never earlier _ later split rfl)

end

theorem after_refused {earlier : List Loaded} {call : Loaded} (refused : ¬ Accepted earlier call) :
    Emitter.after (earlier ++ [call]) = Emitter.after earlier := by
  rw [Emitter.after, List.foldl_append, List.foldl_cons, List.foldl_nil, ← Emitter.after, Emitter.take]
  split
  · next next accepted => exact absurd ⟨next, accepted⟩ refused
  · rfl

theorem settled_of_calls {type document : Text} {blocks : List Block} (small : document.bytes ≤ Span.maxOffset)
    (located : locate type document = .ok blocks) (ascending : blocks.Pairwise Block.Before) {calls : List Loaded}
    (known : ∀ call ∈ calls, call.block ∈ blocks) : Settled document blocks calls where
  accepted := by
    rintro earlier call later rfl
    rcases List.forall_mem_append.mp known with ⟨before, rest⟩
    rw [accepted_iff ascending before (rest call List.mem_cons_self), firstCode_none_accepted ascending before]
  refused _ _ _ _ refused := after_refused refused
  first := firstCode_accepted ascending known
  page := by
    rcases embeds_finish small located (holds_after ascending known) ascending with ⟨page, finished, embeds⟩
    rw [inPageOrder_after ascending known] at embeds
    exact ⟨page, finished, embeds⟩

/-- For any calls that offer code for blocks of a page, the finished page has for each block the first code
that can be embedded, at its place. Calls with the same first codes give the same page. -/
theorem page_of_calls (type document : Text) (blocks : List Block) (calls : List Loaded)
    (small : document.bytes ≤ Span.maxOffset) (located : locate type document = .ok blocks)
    (known : ∀ call ∈ calls, call.block ∈ blocks) :
    Settled document blocks calls ∧
      ∀ others : List Loaded, (∀ call ∈ others, call.block ∈ blocks) →
        (∀ block ∈ blocks, firstCode others block = firstCode calls block) →
        (Emitter.after others).finish? document = (Emitter.after calls).finish? document := by
  rcases elements_of_located located with ⟨found, searched, _⟩
  have ascending := blocks_ascending small located searched
  refine ⟨settled_of_calls small located ascending known, ?_⟩
  intro others knownOthers agree
  have loads : firstLoads blocks others = firstLoads blocks calls := by
    apply List.filterMap_congr
    intro block member
    rw [agree block member]
  have order : (Emitter.after others).inPageOrder = (Emitter.after calls).inPageOrder := by
    rw [inPageOrder_after ascending knownOthers, inPageOrder_after ascending known, loads]
  simp only [Emitter.finish?, order]

def sampleCalls : List Loaded :=
  [⟨otherBlock, ['B']⟩, ⟨sampleBlock, "</SCRIPT".toList⟩, ⟨sampleBlock, ['A']⟩, ⟨otherBlock, ['C']⟩]

/-- Two calls are refused, and the others give the page of two calls in the order of the blocks. -/
theorem page_of_sampleCalls :
    ∃ page, (Emitter.after sampleCalls).finish? samplePage = some page ∧
      (Emitter.after [⟨sampleBlock, ['A']⟩, ⟨otherBlock, ['B']⟩]).finish? samplePage = some page ∧
      Embeds samplePage [⟨sampleBlock, ['A']⟩, ⟨otherBlock, ['B']⟩] page := by
  have result := page_of_calls defaultType samplePage [sampleBlock, otherBlock] sampleCalls (by decide) locate_sample
    (by decide)
  rcases result.1.page with ⟨page, finished, embeds⟩
  have loads : firstLoads [sampleBlock, otherBlock] sampleCalls =
      [⟨sampleBlock, ['A']⟩, ⟨otherBlock, ['B']⟩] := by decide
  have same := result.2 [⟨sampleBlock, ['A']⟩, ⟨otherBlock, ['B']⟩] (by decide) (by decide)
  rw [loads] at embeds
  exact ⟨page, finished, same.trans finished, embeds⟩

end TagCalls.Page
