import Mathlib.Data.List.Sort
import TagCalls.Page.Emitter
import TagCalls.Proofs.Page.Walk

/-!
Emitters that hold blocks of one page. Every accepted load keeps the blocks apart and the code free of
an end tag, and the page order of what is held is the order of the elements in the page.
-/
namespace TagCalls.Page

/-- The emitters reached from an empty one by accepted loads of these blocks. -/
inductive Emitter.Loading (blocks : List Block) : Emitter → Prop
  | fresh : Loading blocks {}
  | load {emitter next : Emitter} {block : Block} {code : Text} : Loading blocks emitter →
      block ∈ blocks → emitter.load block code = .ok next → Loading blocks next

structure Emitter.Holds (emitter : Emitter) (blocks : List Block) : Prop where
  known : ∀ item ∈ emitter.loaded, item.block ∈ blocks
  embeddable : ∀ item ∈ emitter.loaded, ¬ endWord <:+: Text.fold item.code
  once : emitter.loaded.Pairwise fun first second => first.block.id ≠ second.block.id

theorem load_eq_ok_iff (emitter next : Emitter) (block : Block) (code : Text) :
    emitter.load block code = .ok next ↔
      ¬ endWord <:+: Text.fold code ∧ (∀ item ∈ emitter.loaded, item.block.id ≠ block.id) ∧
        next = ⟨emitter.loaded ++ [⟨block, code⟩]⟩ := by
  rw [← Text.containsFolded_iff, Emitter.load]
  by_cases ends : Text.containsFolded endWord code = true
  · simp [ends]
  · by_cases again : emitter.loaded.any (·.block.id == block.id) = true
    · rcases List.any_eq_true.mp again with ⟨item, member, same⟩
      have found : ¬ ∀ item ∈ emitter.loaded, item.block.id ≠ block.id :=
        fun other => other item member (beq_iff_eq.mp same)
      simp [ends, again, found]
    · have other : ∀ item ∈ emitter.loaded, item.block.id ≠ block.id := by
        intro item member same
        exact again (List.any_eq_true.mpr ⟨item, member, beq_iff_eq.mpr same⟩)
      have fresh : emitter.loaded.any (·.block.id == block.id) = false := Bool.eq_false_iff.mpr again
      rw [if_neg ends, fresh]
      constructor
      · intro accepted
        cases accepted
        exact ⟨ends, other, rfl⟩
      · intro accepted
        rw [accepted.2.2]
        rfl

theorem holds_load {blocks : List Block} {emitter next : Emitter} {block : Block} {code : Text}
    (holds : emitter.Holds blocks) (known : block ∈ blocks) (accepted : emitter.load block code = .ok next) :
    next.Holds blocks := by
  rcases (load_eq_ok_iff emitter next block code).mp accepted with ⟨free, other, rfl⟩
  constructor
  · intro item member
    rcases List.mem_append.mp member with earlier | last
    · exact holds.known item earlier
    · rw [List.mem_singleton.mp last]
      exact known
  · intro item member
    rcases List.mem_append.mp member with earlier | last
    · exact holds.embeddable item earlier
    · rw [List.mem_singleton.mp last]
      exact free
  · apply List.pairwise_append.mpr
    refine ⟨holds.once, List.pairwise_singleton _ _, ?_⟩
    intro item member added last
    rw [List.mem_singleton.mp last]
    exact other item member

theorem holds_of_loading {blocks : List Block} {emitter : Emitter} (loading : emitter.Loading blocks) :
    emitter.Holds blocks := by
  induction loading with
  | fresh =>
    have empty : ∀ item : Loaded, item ∉ Emitter.loaded {} := fun _ => List.not_mem_nil
    exact ⟨fun item member => absurd member (empty item), fun item member => absurd member (empty item), .nil⟩
  | load _ known accepted ih => exact holds_load ih known accepted

/-! ### Where elements and blocks begin -/

theorem Element.start_lt_stop (element : Element) : element.start < element.stop := by
  have nonempty : 0 < element.opening.length := List.length_pos_of_mem (a := '>') (by simp [Element.opening])
  have size := Text.length_le_bytes element.opening
  rw [Element.stop, Element.contentStop, Element.contentStart]
  omega

theorem bounds_elementsAt (base : Nat) (segments : List (Segment Parts)) :
    ∀ element ∈ elementsAt base segments, base ≤ element.start ∧
      element.start ≤ base + (Segment.join Parts.text segments).bytes := by
  induction segments generalizing base with
  | nil =>
    intro element member
    cases member
  | cons segment segments ih =>
    intro element member
    cases segment with
    | plain c =>
      have bounds := ih _ element member
      rw [Segment.join_plain, Text.bytes]
      omega
    | found parts =>
      rw [Segment.join_found, Text.bytes_append]
      rcases List.mem_cons.mp member with rfl | later
      · exact ⟨Nat.le_refl base, Nat.le_add_right base _⟩
      · have bounds := ih _ element later
        omega

theorem elementsAt_apart (base : Nat) (segments : List (Segment Parts)) :
    (elementsAt base segments).Pairwise fun first second => first.stop ≤ second.start := by
  induction segments generalizing base with
  | nil => exact .nil
  | cons segment segments ih =>
    cases segment with
    | plain c => exact ih _
    | found parts =>
      refine .cons ?_ (ih _)
      intro element member
      rw [stop_placed]
      exact (bounds_elementsAt _ _ element member).1

theorem elementsAt_pairwise (base : Nat) (segments : List (Segment Parts)) :
    (elementsAt base segments).Pairwise fun first second => first.start < second.start := by
  apply (elementsAt_apart base segments).imp
  intro first second apart
  exact Nat.lt_of_lt_of_le first.start_lt_stop apart

theorem start_ofElement (id : Nat) (element : Element) (small : element.start ≤ Span.maxOffset) :
    (Block.ofElement id element).element.start = element.start :=
  Span.clamp_of_le small

theorem mem_blocksFrom {id : Nat} {found : List Element} {block : Block} (member : block ∈ blocksFrom id found) :
    ∃ element ∈ found, ∃ number, id ≤ number ∧ block = .ofElement number element := by
  induction found generalizing id with
  | nil => cases member
  | cons element found ih =>
    rcases List.mem_cons.mp member with rfl | later
    · exact ⟨element, List.mem_cons_self, id, Nat.le_refl id, rfl⟩
    · rcases ih later with ⟨other, inside, number, low, same⟩
      exact ⟨other, List.mem_cons_of_mem _ inside, number, Nat.le_of_succ_le low, same⟩

theorem blocksFrom_pairwise {R : Element → Element → Prop} {S : Block → Block → Prop}
    (lift : ∀ m n first second, m < n → R first second → S (.ofElement m first) (.ofElement n second)) (id : Nat)
    {found : List Element} (related : found.Pairwise R) : (blocksFrom id found).Pairwise S := by
  induction related generalizing id with
  | nil => exact .nil
  | cons below _ ih =>
    refine .cons ?_ (ih (id + 1))
    intro block member
    rcases mem_blocksFrom member with ⟨other, inside, number, high, rfl⟩
    exact lift id number _ other high (below other inside)

def Block.Before (first second : Block) : Prop :=
  first.id < second.id ∧ first.element.start < second.element.start

theorem blocksFrom_before (id : Nat) (found : List Element)
    (small : ∀ element ∈ found, element.start ≤ Span.maxOffset)
    (ascending : found.Pairwise fun first second => first.start < second.start) :
    (blocksFrom id found).Pairwise Block.Before := by
  have bounded : found.Pairwise fun first second =>
      first.start ≤ Span.maxOffset ∧ second.start ≤ Span.maxOffset ∧ first.start < second.start := by
    apply ascending.imp_of_mem
    intro first second one two order
    exact ⟨small first one, small second two, order⟩
  apply blocksFrom_pairwise _ id bounded
  intro m n first second less order
  refine ⟨less, ?_⟩
  rw [start_ofElement m first order.1, start_ofElement n second order.2.1]
  exact order.2.2

theorem eq_or_before {blocks : List Block} (ascending : blocks.Pairwise Block.Before) {first second : Block}
    (one : first ∈ blocks) (two : second ∈ blocks) :
    first = second ∨ first.Before second ∨ second.Before first := by
  induction ascending with
  | nil => cases one
  | cons below _ ih =>
    rcases List.mem_cons.mp one with rfl | oneLater
    · rcases List.mem_cons.mp two with rfl | twoLater
      · exact .inl rfl
      · exact .inr (.inl (below second twoLater))
    · rcases List.mem_cons.mp two with rfl | twoLater
      · exact .inr (.inr (below first oneLater))
      · exact ih oneLater twoLater

/-! ### The order of the page -/

namespace Emitter

variable {emitter : Emitter} {blocks : List Block}

def covers (emitter : Emitter) (start : Nat) : Bool := emitter.loaded.any (·.block.element.start == start)

theorem covers_iff (start : Nat) :
    emitter.covers start = true ↔ ∃ item ∈ emitter.loaded, item.block.element.start = start := by
  rw [covers, List.any_eq_true]
  simp only [beq_iff_eq]

theorem covers_block (holds : emitter.Holds blocks) (ascending : blocks.Pairwise Block.Before) {block : Block}
    (known : block ∈ blocks) :
    emitter.covers block.element.start = true ↔ block ∈ emitter.loaded.map (·.block) := by
  rw [covers_iff, List.mem_map]
  constructor
  · intro covered
    rcases covered with ⟨item, member, same⟩
    refine ⟨item, member, ?_⟩
    rcases eq_or_before ascending (holds.known item member) known with equal | before | after
    · exact equal
    · exact absurd same (Nat.ne_of_lt before.2)
    · exact absurd same.symm (Nat.ne_of_lt after.2)
  · intro loaded
    rcases loaded with ⟨item, member, rfl⟩
    exact ⟨item, member, rfl⟩

theorem inPageOrder_perm (emitter : Emitter) : emitter.inPageOrder.Perm emitter.loaded :=
  List.mergeSort_perm _ _

theorem inPageOrder_pairwise (holds : emitter.Holds blocks) (ascending : blocks.Pairwise Block.Before) :
    emitter.inPageOrder.Pairwise fun first second =>
      first.block.element.start < second.block.element.start := by
  have sorted : emitter.inPageOrder.Pairwise fun first second =>
      decide (first.block.element.start ≤ second.block.element.start) = true := by
    apply List.pairwise_mergeSort
    · intro first second third one two
      exact decide_eq_true (Nat.le_trans (of_decide_eq_true one) (of_decide_eq_true two))
    · intro first second
      rw [Bool.or_eq_true, decide_eq_true_eq, decide_eq_true_eq]
      exact Nat.le_total _ _
  have apart : emitter.loaded.Pairwise fun first second =>
      first.block.element.start ≠ second.block.element.start := by
    apply holds.once.imp_of_mem
    intro first second one two other
    rcases eq_or_before ascending (holds.known first one) (holds.known second two) with equal | before | after
    · exact absurd (congrArg Block.id equal) other
    · exact Nat.ne_of_lt before.2
    · exact Nat.ne_of_gt after.2
  have ordered := apart.perm emitter.inPageOrder_perm.symm Ne.symm
  apply (sorted.and ordered).imp
  intro first second both
  exact Nat.lt_of_le_of_ne (of_decide_eq_true both.1) both.2

theorem starts_inPageOrder (holds : emitter.Holds blocks) (ascending : blocks.Pairwise Block.Before)
    (found : List Element) (increasing : found.Pairwise fun first second => first.start < second.start)
    (known : ∀ block ∈ blocks, block.element.start ∈ found.map (·.start)) :
    emitter.inPageOrder.map (·.block.element.start) = (found.map (·.start)).filter emitter.covers := by
  apply List.Pairwise.eq_of_mem_iff (r := fun first second : Nat => first < second)
  · exact List.pairwise_map.mpr (inPageOrder_pairwise holds ascending)
  · exact (List.pairwise_map.mpr increasing).filter _
  · intro start
    rw [List.mem_filter, covers_iff, List.mem_map]
    simp only [emitter.inPageOrder_perm.mem_iff]
    constructor
    · intro held
      rcases held with ⟨item, member, rfl⟩
      exact ⟨known _ (holds.known item member), item, member, rfl⟩
    · intro covered
      exact covered.2

end Emitter
end TagCalls.Page
