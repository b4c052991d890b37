import TagCalls.Diagnostic.Position
import TagCalls.Glob.Basic
import TagCalls.Span

/-!
Lines and columns against the bytes of a source. The line of an offset counts the line breaks among the bytes
before it, and the column counts the bytes behind the last of them, also past the end of the source. The table of
line starts is searched by halving, in 32-bit arithmetic, and no step of this leaves the range. Main statement:
`position_exact`.
-/
namespace TagCalls.LineIndex

open Glob (Bytes utf8)

abbrev lineFeed : UInt8 := 10

/-- The line in which some bytes end begins at the offset `start`: at 0 if there is no line break among them, else
behind the last one. -/
inductive LineStart : Bytes → Nat → Prop
  | first {bytes : Bytes} : lineFeed ∉ bytes → LineStart bytes 0
  | behind {front back : Bytes} : lineFeed ∉ back → LineStart (front ++ lineFeed :: back) (front.length + 1)

def NotAfter (one two : Position) : Prop :=
  one.line < two.line ∨ one.line = two.line ∧ one.column ≤ two.column

/-! ### The computation with its limits -/

def add? (a b : Nat) : Option Nat := if a + b ≤ Span.maxOffset then some (a + b) else none

def sub? (a b : Nat) : Option Nat := if b ≤ a then some (a - b) else none

def bisect (test : Nat → Bool) (low high : Nat) : Nat :=
  if low < high then
    let middle := low + (high - low) / 2
    if test middle then bisect test (middle + 1) high else bisect test low middle
  else low
termination_by high - low

def breaks? (offset : Nat) : Bytes → Option (List Nat)
  | [] => some []
  | b :: bytes => do
    let later ← breaks? (offset + 1) bytes
    if b = lineFeed then return (← add? offset 1) :: later else return later

def of? (source : Text) : Option LineIndex := do
  return ⟨0 :: (← breaks? 0 (utf8 source))⟩

/-- The position of an offset, unless a sum or a difference is out of range or the table has no such entry. -/
def position? (index : LineIndex) (offset : Nat) : Option Position := do
  let begun (line : Nat) : Bool := index.starts[line]?.any (· ≤ offset)
  let line ← sub? (bisect begun 0 index.starts.length) 1
  let start ← index.starts[line]?
  let number ← add? line 1
  let column ← add? (← sub? offset start) 1
  return ⟨number, column, offset⟩

/-! ### The bytes of line breaks -/

theorem lineFeed_ne_ofNat {n : Nat} (other : n % 256 ≠ 10) : lineFeed ≠ UInt8.ofNat n := by
  intro same
  have numbers := congrArg UInt8.toNat same
  rw [UInt8.toNat_ofNat'] at numbers
  exact other numbers.symm

theorem lineFeed_not_mem {c : Char} (other : c ≠ '\n') : lineFeed ∉ String.utf8EncodeChar c := by
  -- All bytes of a character outside ASCII are at least 128.
  have number : c.val.toNat ≠ 10 := fun same => other (Char.ext (UInt32.toNat_inj.mp same))
  simp only [String.utf8EncodeChar]
  split
  · rw [List.mem_singleton]
    exact lineFeed_ne_ofNat (by omega)
  · have high {n : Nat} (low : 128 ≤ n) (top : n < 256) : lineFeed ≠ UInt8.ofNat n := lineFeed_ne_ofNat (by omega)
    split
    · simp only [List.mem_cons, List.not_mem_nil, or_false, not_or]
      exact ⟨high (by omega) (by omega), high (by omega) (by omega)⟩
    · split
      · simp only [List.mem_cons, List.not_mem_nil, or_false, not_or]
        exact ⟨high (by omega) (by omega), high (by omega) (by omega), high (by omega) (by omega)⟩
      · simp only [List.mem_cons, List.not_mem_nil, or_false, not_or]
        exact ⟨high (by omega) (by omega), high (by omega) (by omega), high (by omega) (by omega),
          high (by omega) (by omega)⟩

theorem length_utf8 (t : Text) : (utf8 t).length = t.bytes := by
  induction t with
  | nil => rfl
  | cons c t ih =>
    rw [Text.bytes, ← ih, ← String.length_utf8EncodeChar, ← List.length_append]
    rfl

def breaks (offset : Nat) : Bytes → List Nat
  | [] => []
  | b :: bytes => if b = lineFeed then (offset + 1) :: breaks (offset + 1) bytes else breaks (offset + 1) bytes

theorem breaks_append (offset : Nat) (one two : Bytes) :
    breaks offset (one ++ two) = breaks offset one ++ breaks (offset + one.length) two := by
  induction one generalizing offset with
  | nil => rfl
  | cons b one ih =>
    have moved : offset + 1 + one.length = offset + (b :: one).length := by
      rw [List.length_cons]
      omega
    by_cases feed : b = lineFeed <;> simp only [List.cons_append, breaks, feed, if_true, if_false, ih, moved]

theorem breaks_of_not_mem {offset : Nat} {bytes : Bytes} (none : lineFeed ∉ bytes) : breaks offset bytes = [] := by
  induction bytes generalizing offset with
  | nil => rfl
  | cons b bytes ih =>
    have ⟨here, later⟩ := not_or.mp fun member => none (List.mem_cons.mpr member)
    rw [breaks, if_neg (Ne.symm here), ih later]

theorem length_breaks (offset : Nat) (bytes : Bytes) : (breaks offset bytes).length = bytes.count lineFeed := by
  induction bytes generalizing offset with
  | nil => rfl
  | cons b bytes ih =>
    by_cases feed : b = lineFeed
    · simp [breaks, feed, ih]
    · simp [breaks, feed, ih]

theorem startsFrom_eq (offset : Nat) (t : Text) : startsFrom offset t = breaks offset (utf8 t) := by
  induction t generalizing offset with
  | nil => rfl
  | cons c t ih =>
    have split : utf8 (c :: t) = String.utf8EncodeChar c ++ utf8 t := List.flatMap_cons
    rw [split, breaks_append, startsFrom, ih, String.length_utf8EncodeChar]
    by_cases feed : c = '\n'
    · subst feed
      rfl
    · rw [if_neg feed, breaks_of_not_mem (lineFeed_not_mem feed), List.nil_append]

theorem lt_of_mem_breaks {offset start : Nat} {bytes : Bytes} (member : start ∈ breaks offset bytes) :
    offset < start := by
  induction bytes generalizing offset with
  | nil => cases member
  | cons b bytes ih =>
    rw [breaks] at member
    split at member
    · cases List.mem_cons.mp member with
      | inl same => omega
      | inr later => exact Nat.lt_of_succ_lt (ih later)
    · exact Nat.lt_of_succ_lt (ih member)

theorem pairwise_breaks (offset : Nat) (bytes : Bytes) : (breaks offset bytes).Pairwise (· < ·) := by
  induction bytes generalizing offset with
  | nil => exact List.Pairwise.nil
  | cons b bytes ih =>
    rw [breaks]
    split
    · exact List.pairwise_cons.mpr ⟨fun _ member => lt_of_mem_breaks member, ih _⟩
    · exact ih _

theorem takeWhile_breaks (offset limit : Nat) (bytes : Bytes) :
    (breaks offset bytes).takeWhile (· ≤ limit) = breaks offset (bytes.take (limit - offset)) := by
  induction bytes generalizing offset with
  | nil => simp [breaks]
  | cons b bytes ih =>
    by_cases reached : offset < limit
    · have one : limit - offset = limit - (offset + 1) + 1 := by omega
      rw [one, List.take_succ_cons, breaks, breaks]
      split
      · rw [List.takeWhile_cons_of_pos (by simp only [decide_eq_true_eq]; omega), ih]
      · exact ih _
    · have none : limit - offset = 0 := by omega
      rw [none, List.take_zero]
      cases split : breaks offset (b :: bytes) with
      | nil => rfl
      | cons start starts =>
        have late : offset < start := lt_of_mem_breaks (split ▸ List.mem_cons_self)
        exact List.takeWhile_cons_of_neg (by simp only [decide_eq_true_eq]; omega)

theorem exists_last_lineFeed {bytes : Bytes} (member : lineFeed ∈ bytes) :
    ∃ front back, bytes = front ++ lineFeed :: back ∧ lineFeed ∉ back := by
  have ⟨later, earlier, split, absent⟩ := List.eq_append_cons_of_mem (List.mem_reverse.mpr member)
  have turned := congrArg List.reverse split
  simp only [List.reverse_reverse, List.reverse_append, List.reverse_cons, List.append_assoc,
    List.singleton_append] at turned
  exact ⟨earlier.reverse, later.reverse, turned, by simpa using absent⟩

def lastStart (bytes : Bytes) : Nat := (breaks 0 bytes).getLastD 0

theorem lineStart_lastStart (bytes : Bytes) : LineStart bytes (lastStart bytes) := by
  by_cases member : lineFeed ∈ bytes
  · have ⟨front, back, split, absent⟩ := exists_last_lineFeed member
    have start : lastStart bytes = front.length + 1 := by
      rw [lastStart, split, breaks_append, breaks, if_pos rfl, breaks_of_not_mem absent, List.getLastD_concat,
        Nat.zero_add]
    rw [start, split]
    exact .behind absent
  · have start : lastStart bytes = 0 := by rw [lastStart, breaks_of_not_mem member, List.getLastD_nil]
    rw [start]
    exact .first member

theorem lastStart_append {bytes more : Bytes} (sameLine : lineFeed ∉ more) :
    lastStart (bytes ++ more) = lastStart bytes := by
  rw [lastStart, breaks_append, breaks_of_not_mem sameLine, List.append_nil, lastStart]

theorem LineStart.le_length {bytes : Bytes} {start : Nat} (begins : LineStart bytes start) :
    start ≤ bytes.length := by
  cases begins with
  | first => exact Nat.zero_le _
  | behind =>
    rw [List.length_append, List.length_cons]
    omega

/-! ### The position of an offset -/

section
variable (source : Text) (offset : Nat)

def bytesBefore : Bytes := (utf8 source).take offset

theorem begun_eq : (of source).starts.takeWhile (· ≤ offset) = 0 :: breaks 0 (bytesBefore source offset) := by
  rw [of, startsFrom_eq, List.takeWhile_cons_of_pos (by simp), takeWhile_breaks, Nat.sub_zero, bytesBefore]

theorem lastStart_le : lastStart (bytesBefore source offset) ≤ offset := by
  have bound := (lineStart_lastStart (bytesBefore source offset)).le_length
  rw [bytesBefore, List.length_take] at bound
  exact Nat.le_trans bound (Nat.min_le_left _ _)

theorem position_eq :
    (of source).position offset =
      ⟨(bytesBefore source offset).count lineFeed + 1, offset - lastStart (bytesBefore source offset) + 1, offset⟩ := by
  rw [position, begun_eq, List.length_cons, length_breaks, List.getLastD_cons]
  rfl

theorem starts_line :
    (of source).starts[(bytesBefore source offset).count lineFeed]? =
      some (lastStart (bytesBefore source offset)) := by
  have whole : (of source).starts = 0 :: breaks 0 (bytesBefore source offset) ++
      (of source).starts.dropWhile (· ≤ offset) := by
    rw [← begun_eq]
    exact List.takeWhile_append_dropWhile.symm
  rw [whole, ← length_breaks 0, List.getElem?_append_left (Nat.lt_succ_self _), lastStart]
  generalize breaks 0 (bytesBefore source offset) = found
  calc
    (0 :: found)[found.length]? = (0 :: found).getLast? := List.getLast?_eq_getElem?.symm
    _ = some (found.getLastD 0) := by rw [List.getLast?_cons, List.getLastD_eq_getLast?]

end

/-! ### The search -/

theorem bisect_eq {test : Nat → Bool} {least low high : Nat} (divides : ∀ i, test i = true ↔ i < least)
    (above : low ≤ least) (below : least ≤ high) : bisect test low high = least := by
  fun_induction bisect test low high with
  | case1 low high ahead middle passes ih => exact ih ((divides middle).mp passes) below
  | case2 low high ahead middle fails ih =>
    exact ih above (Nat.le_of_not_lt fun late => fails ((divides middle).mpr late))
  | case3 low high closed => omega

theorem any_getElem?_iff {starts : List Nat} (ascending : starts.Pairwise (· < ·)) (limit i : Nat) :
    starts[i]?.any (· ≤ limit) = true ↔ i < (starts.takeWhile (· ≤ limit)).length := by
  induction starts generalizing i with
  | nil => simp
  | cons start starts ih =>
    have ⟨later, rest⟩ := List.pairwise_cons.mp ascending
    by_cases begun : start ≤ limit
    · rw [List.takeWhile_cons_of_pos (by simpa using begun)]
      cases i with
      | zero => simp [begun]
      | succ i =>
        rw [List.getElem?_cons_succ, ih rest, List.length_cons]
        omega
    · rw [List.takeWhile_cons_of_neg (by simpa using begun)]
      constructor
      · intro passed
        have ⟨other, found, early⟩ := (Option.any_eq_true _ _).mp passed
        have order : start ≤ other := by
          cases List.mem_cons.mp (List.mem_of_getElem? found) with
          | inl same => exact Nat.le_of_eq same.symm
          | inr behind => exact Nat.le_of_lt (later other behind)
        exact absurd (Nat.le_trans order (of_decide_eq_true early)) begun
      · intro short
        exact absurd short (Nat.not_lt_zero i)

theorem pairwise_starts (source : Text) : (of source).starts.Pairwise (· < ·) := by
  rw [of, startsFrom_eq]
  exact List.pairwise_cons.mpr ⟨fun _ member => lt_of_mem_breaks member, pairwise_breaks 0 _⟩

theorem bisect_starts (source : Text) (offset : Nat) :
    bisect (fun line => (of source).starts[line]?.any (· ≤ offset)) 0 (of source).starts.length =
      (bytesBefore source offset).count lineFeed + 1 := by
  have begun : ((of source).starts.takeWhile (· ≤ offset)).length =
      (bytesBefore source offset).count lineFeed + 1 := by
    rw [begun_eq, List.length_cons, length_breaks]
  rw [← begun]
  exact bisect_eq (any_getElem?_iff (pairwise_starts source) offset) (Nat.zero_le _)
    (List.takeWhile_prefix _).length_le

/-! ### The limits -/

theorem add?_of_le {a b : Nat} (fits : a + b ≤ Span.maxOffset) : add? a b = some (a + b) := if_pos fits

theorem sub?_of_le {a b : Nat} (order : b ≤ a) : sub? a b = some (a - b) := if_pos order

theorem breaks?_eq {offset : Nat} {bytes : Bytes} (fits : offset + bytes.length ≤ Span.maxOffset) :
    breaks? offset bytes = some (breaks offset bytes) := by
  induction bytes generalizing offset with
  | nil => rfl
  | cons b bytes ih =>
    rw [List.length_cons] at fits
    have next : add? offset 1 = some (offset + 1) := add?_of_le (by omega)
    rw [breaks?, breaks, ih (by omega), next]
    split <;> rfl

theorem of?_eq {source : Text} (small : source.bytes ≤ Span.maxOffset) : of? source = some (of source) := by
  have table := @breaks?_eq 0 (utf8 source) (by rw [length_utf8]; omega)
  rw [of?, table, of, startsFrom_eq]
  rfl

theorem count_bytesBefore_le (source : Text) (offset : Nat) :
    (bytesBefore source offset).count lineFeed ≤ source.bytes := by
  have bound := @List.count_le_length _ _ lineFeed (bytesBefore source offset)
  rw [bytesBefore, List.length_take, length_utf8] at bound
  exact Nat.le_trans bound (Nat.min_le_right _ _)

theorem position?_eq {source : Text} {offset : Nat} (small : source.bytes < Span.maxOffset)
    (inside : offset < Span.maxOffset) : (of source).position? offset = some ((of source).position offset) := by
  have few := count_bytesBefore_le source offset
  have begun := lastStart_le source offset
  have line : sub? ((bytesBefore source offset).count lineFeed + 1) 1 =
      some ((bytesBefore source offset).count lineFeed) := sub?_of_le (Nat.le_add_left _ _)
  have number := @add?_of_le ((bytesBefore source offset).count lineFeed) 1 (by omega)
  have column := @add?_of_le (offset - lastStart (bytesBefore source offset)) 1 (by omega)
  simp only [position?, bisect_starts, line, starts_line, number, sub?_of_le begun, column, position_eq,
    Option.bind_eq_bind, Option.bind_some]
  rfl

/-! ### Order -/

theorem position_mono (source : Text) {offset later : Nat} (order : offset ≤ later) :
    NotAfter ((of source).position offset) ((of source).position later) := by
  have longer : bytesBefore source offset <+: bytesBefore source later := List.take_prefix_take_left order
  have ⟨more, whole⟩ := longer
  rw [NotAfter, position_eq, position_eq, ← whole]
  by_cases feed : lineFeed ∈ more
  · left
    have positive := List.count_pos_iff.mpr feed
    rw [List.count_append]
    dsimp only
    omega
  · right
    rw [List.count_append, List.count_eq_zero.mpr feed, lastStart_append feed]
    dsimp only
    omega

/-- The position of an offset is computed within 32 bits, also past the end of the source. Its line counts the line
breaks before the offset and its column the bytes since the last of them; the offset is got back from the table of
line starts, and a greater offset never has a position before it. -/
theorem position_exact (source : Text) (offset : Nat) (small : source.bytes < Span.maxOffset)
    (inside : offset < Span.maxOffset) :
    ∃ start line column,
      of? source = some (of source) ∧ (of source).position? offset = some ⟨line, column, offset⟩ ∧
      (of source).position offset = ⟨line, column, offset⟩ ∧
      line = 1 + ((utf8 source).take offset).count lineFeed ∧
      LineStart ((utf8 source).take offset) start ∧ start ≤ offset ∧ column = 1 + offset - start ∧
      (of source).starts[line - 1]? = some start ∧ start + column - 1 = offset ∧
      ∀ later, offset ≤ later → NotAfter ⟨line, column, offset⟩ ((of source).position later) := by
  have begun := lastStart_le source offset
  have told := position_eq source offset
  have checked := position?_eq small inside
  refine ⟨lastStart (bytesBefore source offset), (bytesBefore source offset).count lineFeed + 1,
    offset - lastStart (bytesBefore source offset) + 1, of?_eq (Nat.le_of_lt small), ?_, told, Nat.add_comm _ _,
    lineStart_lastStart _, begun, ?_, starts_line source offset, ?_, ?_⟩
  · rw [checked, told]
  · omega
  · omega
  · intro later order
    rw [← told]
    exact position_mono source order

def twoLines : Text := ['é', '\n', 'ü']

/-- An offset past the end is in the last line. -/
theorem position_exact_twoLines :
    twoLines.bytes < Span.maxOffset ∧ (of twoLines).position? 9 = some ⟨2, 7, 9⟩ ∧
      LineStart ((utf8 twoLines).take 9) 3 ∧ NotAfter ⟨2, 7, 9⟩ ((of twoLines).position 10) := by
  have small : twoLines.bytes < Span.maxOffset := by decide
  have ⟨start, line, column, _, checked, same, _, begins, _, _, _, back, order⟩ :=
    position_exact twoLines 9 small (by decide)
  have computed : (of twoLines).position 9 = ⟨2, 7, 9⟩ := by decide
  rw [computed] at same
  cases same
  have three : start = 3 := by omega
  rw [three] at begins
  exact ⟨small, checked, begins, order 10 (by decide)⟩

end TagCalls.LineIndex
