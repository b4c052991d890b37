import TagCalls.Proofs.Tag.Reading

/-!
One call of the scanner as a loop over the characters ahead. Behind a `<name` that never reaches its `>` the loop goes
back to the character behind that `<`, so its place alone is no measure: what shrinks is first the text behind the
last `<` that was taken for a tag and then the text ahead. Main statement: `run_loop`, the loop is over after a number
of steps that is quadratic in the text, and has found what `find` finds.
-/
namespace TagCalls.Tag

open Attribute (isQuote)

/-- Where the loop stands behind a tag's name, with the depth of its braces in 32 bits. -/
inductive Inside32 where
  | between
  | quoted (quote : Char)
  | braced (depth : UInt32)
  deriving DecidableEq, Repr

def Inside32.step : Inside32 → Char → Inside32
  | .between, c => if isQuote c then .quoted c else if c = '{' then .braced 1 else .between
  | .quoted quote, c => if c = quote then .between else .quoted quote
  | .braced depth, c =>
    if c = '{' then .braced (depth + 1)
    else if c = '}' then if depth = 1 then .between else .braced (depth - 1)
    else .braced depth

/-- Where the loop stands: `gap` is passed since the call began, and `ahead` is not read yet. -/
inductive Loop where
  | outside (gap ahead : Text)
  /-- In a tag: behind `gap` stands its `<`, then `tail`, which is the name, `raw` and `ahead`. -/
  | inside (gap tail name raw : Text) (state : Inside32) (ahead : Text)
  deriving DecidableEq, Repr

namespace Loop

def step : Loop → Loop ⊕ Found
  | .outside _ [] => .inr .none
  | .outside gap (c :: t) =>
    if c = '<' then
      match readClosing? (c :: t) with
      | some (tag, rest) => .inr (.tagged gap tag rest)
      | none =>
        match Text.takeName? t with
        | some (name, behind) => .inl (.inside gap t name [] .between behind)
        | none => .inl (.outside (gap ++ [c]) t)
    else .inl (.outside (gap ++ [c]) t)
  -- The `<` was no tag: all behind it is read again.
  | .inside gap tail _ _ .between [] => .inl (.outside (gap ++ ['<']) tail)
  | .inside gap _ name _ _ [] => .inr (.stuck gap name)
  | .inside gap tail name raw state (c :: t) =>
    if state = .between ∧ c = '>' then .inr (.tagged gap (ofRaw name raw) t)
    else .inl (.inside gap tail name (raw ++ [c]) (state.step c) t)

def run : Nat → Loop → Option Found
  | 0, _ => none
  | steps + 1, loop =>
    match loop.step with
    | .inl next => run steps next
    | .inr found => some found

def size : Loop → Nat
  | .outside _ ahead => (ahead.length + 1) * (ahead.length + 1)
  | .inside _ tail _ _ _ ahead => (tail.length + 1) * (tail.length + 1) + ahead.length + 1

end Loop

/-! ### Depths in 32 bits -/

namespace Inside32

def wide : Inside32 → Inside
  | .between => .between
  | .quoted quote => .quoted quote
  | .braced depth => .braced (depth.toNat - 1)

/-- So many more braces can be opened without a depth that wraps around. -/
def Fits (braces : Nat) : Inside32 → Prop
  | .between | .quoted _ => braces ≤ Span.maxOffset
  | .braced depth => 0 < depth.toNat ∧ depth.toNat + braces ≤ Span.maxOffset

theorem wide_between {state : Inside32} : state.wide = .between ↔ state = .between := by
  cases state <;> simp [wide]

theorem step_braced {depth : UInt32} {c : Char} {t : Text} (fits : (braced depth).Fits ((c :: t).count '{')) :
    ((braced depth).step c).Fits (t.count '{') ∧ ((braced depth).step c).wide = (braced depth).wide.step c := by
  obtain ⟨positive, bound⟩ := fits
  by_cases opens : c = '{'
  · subst opens
    have deeper : (depth + 1).toNat = depth.toNat + 1 := by
      rw [List.count_cons_self, Span.maxOffset] at bound
      rw [UInt32.toNat_add]
      exact Nat.mod_eq_of_lt (by simp; omega)
    have next : (braced depth).step '{' = .braced (depth + 1) := by simp [step]
    have outer : depth.toNat = depth.toNat - 1 + 1 := by omega
    rw [List.count_cons_self] at bound
    rw [next, Fits, wide, wide, step_braced_open, deeper, Nat.add_sub_cancel, ← outer]
    exact ⟨⟨by omega, by omega⟩, rfl⟩
  · rw [List.count_cons_of_ne opens] at bound
    by_cases closes : c = '}'
    · subst closes
      by_cases last : depth = 1
      · subst last
        exact ⟨by simp [step, Fits]; omega, rfl⟩
      · have least : (1 : UInt32) ≤ depth := UInt32.le_iff_toNat_le.mpr positive
        have lower : (depth - 1).toNat = depth.toNat - 1 := UInt32.toNat_sub_of_le depth 1 least
        have more : depth.toNat ≠ 1 := fun one => last (UInt32.toNat_inj.mp one)
        have next : (braced depth).step '}' = .braced (depth - 1) := by simp [step, last]
        have outer : depth.toNat - 1 = depth.toNat - 1 - 1 + 1 := by omega
        rw [next, Fits, wide, wide, lower, outer, step_braced_close]
        exact ⟨⟨by omega, by omega⟩, by rw [← outer]⟩
    · have next : (braced depth).step c = .braced depth := by simp [step, opens, closes]
      rw [next, wide, step_braced_other _ opens closes]
      exact ⟨⟨positive, bound⟩, rfl⟩

theorem step_fits {state : Inside32} {c : Char} {t : Text} (fits : state.Fits ((c :: t).count '{')) :
    (state.step c).Fits (t.count '{') ∧ (state.step c).wide = state.wide.step c := by
  have shorter : t.count '{' ≤ (c :: t).count '{' := List.count_le_count_cons
  cases state with
  | between =>
    by_cases quote : isQuote c
    · have next : between.step c = .quoted c := by simp [step, quote]
      rw [next, wide, wide, step_between_quote quote]
      exact ⟨Nat.le_trans shorter fits, rfl⟩
    · by_cases opens : c = '{'
      · subst opens
        have bound : ('{' :: t).count '{' ≤ Span.maxOffset := fits
        rw [List.count_cons_self, Nat.add_comm] at bound
        exact ⟨⟨by decide, bound⟩, rfl⟩
      · have next : between.step c = .between := by simp [step, quote, opens]
        have same : Inside.step .between c = .between := by simp [Inside.step, quote, opens]
        rw [next, wide, same]
        exact ⟨Nat.le_trans shorter fits, rfl⟩
  | quoted quote =>
    by_cases closes : c = quote
    · subst closes
      have next : (quoted c).step c = .between := by simp [step]
      have same : Inside.step (.quoted c) c = .between := by simp [Inside.step]
      rw [next, wide, wide, same]
      exact ⟨Nat.le_trans shorter fits, rfl⟩
    · have next : (quoted quote).step c = .quoted quote := by simp [step, closes]
      rw [next, wide, step_quoted_other (Ne.symm closes)]
      exact ⟨Nat.le_trans shorter fits, rfl⟩
  | braced depth => exact step_braced fits

end Inside32

/-! ### What the loop will find -/

def Found.extend (front : Text) : Found → Found
  | .tagged gap tag rest => .tagged (front ++ gap) tag rest
  | .stuck gap name => .stuck (front ++ gap) name
  | .none => .none

theorem extend_push (front : Text) (c : Char) (found : Found) :
    (found.push c).extend front = found.extend (front ++ [c]) := by
  cases found <;> simp [Found.push, Found.extend]

theorem extend_none (found : Found) : found.extend [] = found := by
  cases found <;> rfl

/-- What is found at a `<` and a name, by how the text goes on behind them; `plain` is found otherwise. -/
def Body.found (gap name : Text) (plain : Found) : Body → Found
  | .closed raw rest => .tagged gap (ofRaw name raw) rest
  | .unended => plain
  | .stuck => .stuck gap name

theorem find_cons_plain {c : Char} {t : Text} (plain : read (c :: t) = .plain) (gap : Text) :
    (find (c :: t)).extend gap = (find t).extend (gap ++ [c]) := by
  rw [find, plain]
  exact extend_push gap c (find t)

theorem find_cons_tagged {c : Char} {t rest : Text} {tag : Tag} (tagged : read (c :: t) = .tagged tag rest)
    (gap : Text) : (find (c :: t)).extend gap = .tagged gap tag rest := by
  rw [find, tagged, Found.extend, List.append_nil]

theorem find_cons_named {c : Char} {t name : Text} {b : Body} (named : read (c :: t) = b.reading name) (gap : Text) :
    (find (c :: t)).extend gap = b.found gap name ((find t).extend (gap ++ [c])) := by
  cases b with
  | closed raw rest => exact find_cons_tagged named gap
  | unended => exact find_cons_plain named gap
  | stuck =>
    rw [find, named]
    exact congrArg (Found.stuck · name) (List.append_nil gap)

namespace Loop

def result : Loop → Found
  | .outside gap ahead => (find ahead).extend gap
  | .inside gap tail name raw state ahead =>
    ((body state.wide ahead).extend raw).found gap name ((find tail).extend (gap ++ ['<']))

def Fits : Loop → Prop
  | .outside _ ahead => ahead.count '{' ≤ Span.maxOffset
  | .inside _ tail _ _ state ahead => tail.count '{' ≤ Span.maxOffset ∧ state.Fits (ahead.count '{')

theorem step_outside (gap : Text) (c : Char) (t : Text) :
    (step (.outside gap (c :: t)) = .inl (.outside (gap ++ [c]) t) ∧ read (c :: t) = .plain) ∨
    (∃ tag rest, step (.outside gap (c :: t)) = .inr (.tagged gap tag rest) ∧ read (c :: t) = .tagged tag rest) ∨
    (∃ name behind, step (.outside gap (c :: t)) = .inl (.inside gap t name [] .between behind) ∧ c = '<' ∧
      t = name ++ behind ∧ read (c :: t) = (body .between behind).reading name) := by
  by_cases opens : c = '<'
  · subst opens
    cases closing : readClosing? ('<' :: t) with
    | some found =>
      obtain ⟨tag, rest⟩ := found
      refine .inr (.inl ⟨tag, rest, ?_, ?_⟩)
      · simp only [step, if_true, closing]
      · simp only [read, if_true, closing]
    | none =>
      cases taken : Text.takeName? t with
      | none =>
        refine .inl ⟨?_, ?_⟩
        · simp only [step, if_true, closing, taken]
        · simp only [read, if_true, closing, readNamed, taken]
      | some parts =>
        obtain ⟨name, behind⟩ := parts
        obtain ⟨split, _⟩ := Text.takeName?_eq_some taken
        refine .inr (.inr ⟨name, behind, ?_, rfl, split, ?_⟩)
        · simp only [step, if_true, closing, taken]
        · simp only [read, if_true, closing, readNamed, taken]
          rfl
  · refine .inl ⟨?_, ?_⟩
    · simp only [step, if_neg opens]
    · simp only [read, if_neg opens]

theorem step_inside (gap tail name raw : Text) (state : Inside32) (c : Char) (t : Text) :
    step (.inside gap tail name raw state (c :: t)) =
      if state = .between ∧ c = '>' then .inr (.tagged gap (ofRaw name raw) t)
      else .inl (.inside gap tail name (raw ++ [c]) (state.step c) t) := by
  cases state <;> rfl

theorem step_inl {loop next : Loop} (going : loop.step = .inl next) :
    next.size < loop.size ∧ (loop.Fits → next.Fits ∧ next.result = loop.result) := by
  cases loop with
  | outside gap ahead =>
    cases ahead with
    | nil => cases going
    | cons c t =>
      have square : (t.length + 1 + 1) * (t.length + 1 + 1) =
          (t.length + 1) * (t.length + 1) + (t.length + 1) + (t.length + 1) + 1 := Nat.succ_mul_succ _ _
      have fewer : t.count '{' ≤ (c :: t).count '{' := List.count_le_count_cons
      obtain ⟨turn, plain⟩ | ⟨tag, rest, turn, _⟩ | ⟨name, behind, turn, rfl, split, named⟩ := step_outside gap c t
      · obtain rfl := Sum.inl.inj (turn.symm.trans going)
        refine ⟨?_, fun fits => ⟨Nat.le_trans fewer fits, (find_cons_plain plain gap).symm⟩⟩
        rw [size, size, List.length_cons]
        omega
      · cases turn.symm.trans going
      · obtain rfl := Sum.inl.inj (turn.symm.trans going)
        have shorter : behind.length ≤ t.length := by simp [split]
        have less : behind.count '{' ≤ t.count '{' := by simp [split, List.count_append]
        refine ⟨?_, fun fits => ⟨⟨Nat.le_trans fewer fits, Nat.le_trans less (Nat.le_trans fewer fits)⟩, ?_⟩⟩
        · rw [size, size, List.length_cons]
          omega
        · rw [result, result, find_cons_named named gap, extend_nil]
          rfl
  | inside gap tail name raw state ahead =>
    cases ahead with
    | nil =>
      cases state with
      | between =>
        cases going
        exact ⟨Nat.lt_succ_self _, fun fits => ⟨fits.1, rfl⟩⟩
      | quoted quote => cases going
      | braced depth => cases going
    | cons c t =>
      rw [step_inside] at going
      split at going
      · cases going
      · next goesOn =>
        cases going
        refine ⟨Nat.lt_succ_self _, ?_⟩
        intro fits
        obtain ⟨fitsNext, same⟩ := Inside32.step_fits fits.2
        refine ⟨⟨fits.1, fitsNext⟩, ?_⟩
        rw [result, result, same, body_cons t (by rwa [Inside32.wide_between]), extend_extend]

theorem step_inr {loop : Loop} {found : Found} (leaving : loop.step = .inr found) : loop.result = found := by
  cases loop with
  | outside gap ahead =>
    cases ahead with
    | nil =>
      cases leaving
      rfl
    | cons c t =>
      obtain ⟨turn, _⟩ | ⟨tag, rest, turn, tagged⟩ | ⟨name, behind, turn, _⟩ := step_outside gap c t
      · cases turn.symm.trans leaving
      · obtain rfl := Sum.inr.inj (turn.symm.trans leaving)
        exact find_cons_tagged tagged gap
      · cases turn.symm.trans leaving
  | inside gap tail name raw state ahead =>
    cases ahead with
    | nil =>
      cases state with
      | between => cases leaving
      | quoted quote =>
        cases leaving
        rfl
      | braced depth =>
        cases leaving
        rfl
    | cons c t =>
      rw [step_inside] at leaving
      split at leaving
      · next ends =>
        obtain ⟨rfl, rfl⟩ := ends
        cases leaving
        rw [result, Inside32.wide, body, if_pos ⟨rfl, rfl⟩, Body.extend, List.append_nil, Body.found]
      · cases leaving

/-- The loop is left within the steps that its size gives, with what there is to be found. -/
theorem run_loop {steps : Nat} {loop : Loop} (enough : loop.size ≤ steps) :
    ∃ found, loop.run steps = some found ∧ (loop.Fits → found = loop.result) := by
  induction steps generalizing loop with
  | zero =>
    have positive : 0 < loop.size := by
      cases loop with
      | outside gap ahead => exact Nat.mul_pos (Nat.succ_pos _) (Nat.succ_pos _)
      | inside gap tail name raw state ahead => exact Nat.succ_pos _
    omega
  | succ steps ih =>
    rw [run]
    cases turn : loop.step with
    | inr found => exact ⟨found, rfl, fun _ => (step_inr turn).symm⟩
    | inl next =>
      obtain ⟨shorter, keeps⟩ := step_inl turn
      obtain ⟨found, left, finds⟩ := @ih next (by omega)
      refine ⟨found, left, ?_⟩
      intro fits
      obtain ⟨fitsNext, same⟩ := keeps fits
      rw [finds fitsNext, same]

end Loop

end TagCalls.Tag
