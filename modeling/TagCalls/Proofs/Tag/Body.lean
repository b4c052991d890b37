import TagCalls.Tag.Scanner

/-!
The inside of a tag as a sequence of items: quoted runs, braced runs and single characters. An item
is defined by the characters it holds, with braces counted and not followed state by state. Main
statement: `body_eq_iff`, the scan behind a name ends as the items say, on every text.
-/
namespace TagCalls.Tag

open Attribute (isQuote)

/-- At a depth of `deeper + 1` open braces, no part of the text from its beginning closes them all. -/
def StaysOpen (deeper : Nat) (t : Text) : Prop :=
  ∀ part, part <+: t → part.count '}' ≤ deeper + part.count '{'

/-- From a `{` to the `}` that brings the count of open braces back to zero. -/
structure BraceRun (run : Text) : Prop where
  opens : ∃ tail, run = '{' :: tail
  level : run.count '}' = run.count '{'
  early : ∀ part, part <+: run → part ≠ [] → part ≠ run → part.count '}' < part.count '{'

inductive Item : Text → Prop
  | single {c : Char} : isQuote c = false → c ≠ '{' → c ≠ '>' → Item [c]
  | quoted {quote : Char} {inside : Text} :
      isQuote quote → quote ∉ inside → Item (quote :: (inside ++ [quote]))
  | braced {run : Text} : BraceRun run → Item run

inductive Items : Text → Prop
  | nil : Items []
  | cons {item rest : Text} : Item item → Items rest → Items (item ++ rest)

/-- The beginning of a quoted or braced run that the text does not finish. -/
inductive Broken : Text → Prop
  | quoted {quote : Char} {inside : Text} : isQuote quote → quote ∉ inside → Broken (quote :: inside)
  | braced {inside : Text} :
      (∀ part, part <+: '{' :: inside → part ≠ [] → part.count '}' < part.count '{') →
      Broken ('{' :: inside)

inductive GoesOn : Text → Body → Prop
  | closed {raw rest : Text} : Items raw → GoesOn (raw ++ '>' :: rest) (.closed raw rest)
  | unended {t : Text} : Items t → GoesOn t .unended
  | stuck {done broken : Text} : Items done → Broken broken → GoesOn (done ++ broken) .stuck

theorem items_append {first second : Text} (one : Items first) (two : Items second) :
    Items (first ++ second) := by
  induction one with
  | nil => exact two
  | cons form _ ih =>
    rw [List.append_assoc]
    exact .cons form ih

theorem items_of_plain {t : Text} (plain : ∀ c ∈ t, isQuote c = false ∧ c ≠ '{' ∧ c ≠ '>') : Items t := by
  induction t with
  | nil => exact .nil
  | cons c t ih =>
    rcases plain c (by simp) with ⟨noQuote, noBrace, noEnd⟩
    exact .cons (.single noQuote noBrace noEnd) (ih fun d member => plain d (by simp [member]))

/-! ### Counting braces -/

theorem staysOpen_nil (deeper : Nat) : StaysOpen deeper [] := by
  intro part shorter
  rw [List.prefix_nil.mp shorter]
  simp

theorem staysOpen_cons {deeper : Nat} {c : Char} {t : Text} :
    StaysOpen deeper (c :: t) ↔
      ∀ part, part <+: t → (c :: part).count '}' ≤ deeper + (c :: part).count '{' := by
  constructor
  · intro stays part shorter
    exact stays (c :: part) (List.cons_prefix_cons.mpr ⟨rfl, shorter⟩)
  · intro stays part shorter
    rcases List.prefix_cons_iff.mp shorter with rfl | ⟨tail, rfl, inner⟩
    · simp
    · exact stays tail inner

theorem staysOpen_open {deeper : Nat} {t : Text} :
    StaysOpen deeper ('{' :: t) ↔ StaysOpen (deeper + 1) t := by
  rw [staysOpen_cons]
  refine forall₂_congr fun part _ => ?_
  simp only [List.count_cons_self, List.count_cons_of_ne (show ('{' : Char) ≠ '}' by decide)]
  omega

theorem staysOpen_close {deeper : Nat} {t : Text} :
    StaysOpen deeper ('}' :: t) ↔ ∃ outer, deeper = outer + 1 ∧ StaysOpen outer t := by
  have here (part : Text) : ('}' :: part).count '}' = part.count '}' + 1 ∧
      ('}' :: part).count '{' = part.count '{' :=
    ⟨List.count_cons_self, List.count_cons_of_ne (by decide)⟩
  rw [staysOpen_cons]
  constructor
  · intro stays
    have positive := stays [] (List.nil_prefix)
    rw [(here []).1, (here []).2] at positive
    simp only [List.count_nil] at positive
    refine ⟨deeper - 1, by omega, ?_⟩
    intro part shorter
    have bound := stays part shorter
    rw [(here part).1, (here part).2] at bound
    omega
  · intro deep part shorter
    rcases deep with ⟨outer, rfl, stays⟩
    have bound := stays part shorter
    rw [(here part).1, (here part).2]
    omega

theorem staysOpen_other {deeper : Nat} {c : Char} {t : Text} (noOpen : c ≠ '{') (noClose : c ≠ '}') :
    StaysOpen deeper (c :: t) ↔ StaysOpen deeper t := by
  rw [staysOpen_cons]
  refine forall₂_congr fun part _ => ?_
  rw [List.count_cons_of_ne noOpen, List.count_cons_of_ne noClose]

theorem braceRun_iff {run : Text} :
    BraceRun run ↔ ∃ inside, run = '{' :: (inside ++ ['}']) ∧ StaysOpen 0 inside ∧
      inside.count '}' = inside.count '{' := by
  constructor
  · intro run
    rcases run with ⟨⟨tail, rfl⟩, level, early⟩
    have inner (part : Text) (shorter : part <+: tail) (proper : part ≠ tail) :
        part.count '}' ≤ part.count '{' := by
      have bound := early ('{' :: part) (List.cons_prefix_cons.mpr ⟨rfl, shorter⟩) (by simp) (by simpa)
      rw [List.count_cons_self, List.count_cons_of_ne (by decide)] at bound
      omega
    rw [List.count_cons_self, List.count_cons_of_ne (by decide)] at level
    rcases List.eq_nil_or_concat tail with rfl | ⟨inside, last, same⟩
    · simp at level
    · rw [List.concat_eq_append] at same
      subst same
      have stays : StaysOpen 0 inside := by
        intro part shorter
        have proper : part ≠ inside ++ [last] := by
          intro same
          subst same
          have longer := shorter.length_le
          rw [List.length_append, List.length_singleton] at longer
          omega
        have bound := inner part (shorter.trans (List.prefix_append _ _)) proper
        omega
      have whole := stays inside (List.prefix_refl _)
      rw [List.count_append, List.count_append, List.count_singleton, List.count_singleton] at level
      by_cases closes : last = '}'
      · subst closes
        exact ⟨inside, rfl, stays, by simpa using level⟩
      · simp [closes] at level
        omega
  · intro shape
    rcases shape with ⟨inside, rfl, stays, level⟩
    refine ⟨⟨_, rfl⟩, by simp [level, List.count_append], ?_⟩
    intro part shorter nonempty proper
    rcases List.prefix_cons_iff.mp shorter with rfl | ⟨tail, rfl, within⟩
    · exact absurd rfl nonempty
    · rcases List.prefix_concat_iff.mp within with rfl | within
      · exact absurd rfl proper
      · have bound := stays tail within
        rw [List.count_cons_self, List.count_cons_of_ne (by decide)]
        omega

/-! ### The scan over one item -/

def Body.extend (front : Text) : Body → Body
  | .closed raw rest => .closed (front ++ raw) rest
  | .unended => .unended
  | .stuck => .stuck

theorem extend_nil (b : Body) : b.extend [] = b := by
  cases b <;> rfl

theorem extend_extend (first second : Text) (b : Body) :
    (b.extend second).extend first = b.extend (first ++ second) := by
  cases b <;> simp [Body.extend]

theorem body_cons {state : Inside} {c : Char} (t : Text) (goesOn : ¬ (state = .between ∧ c = '>')) :
    body state (c :: t) = (body (state.step c) t).extend [c] := by
  rw [body, if_neg goesOn]
  cases body (state.step c) t <;> rfl

theorem step_braced_open (deeper : Nat) : Inside.step (.braced deeper) '{' = .braced (deeper + 1) := by
  simp [Inside.step]

theorem step_braced_close (outer : Nat) : Inside.step (.braced (outer + 1)) '}' = .braced outer := by
  simp [Inside.step]

theorem step_braced_other (deeper : Nat) {c : Char} (noOpen : c ≠ '{') (noClose : c ≠ '}') :
    Inside.step (.braced deeper) c = .braced deeper := by
  simp [Inside.step, noOpen, noClose]

theorem step_quoted_other {quote c : Char} (other : quote ≠ c) :
    Inside.step (.quoted quote) c = .quoted quote := by
  simp [Inside.step, Ne.symm other]

theorem step_between_quote {quote : Char} (isQuoted : isQuote quote) :
    Inside.step .between quote = .quoted quote := by
  simp [Inside.step, isQuoted]

theorem isQuote_ne_end {quote : Char} (isQuoted : isQuote quote) : quote ≠ '>' := by
  intro same
  subst same
  cases isQuoted

theorem body_quoted {quote : Char} {inside : Text} (absent : quote ∉ inside) (rest : Text) :
    body (.quoted quote) (inside ++ quote :: rest) = (body .between rest).extend (inside ++ [quote]) := by
  induction inside with
  | nil =>
    rw [List.nil_append, body_cons rest (by simp)]
    simp [Inside.step]
  | cons c inside ih =>
    simp only [List.mem_cons, not_or] at absent
    rw [List.cons_append, body_cons _ (by simp), step_quoted_other absent.1, ih absent.2, extend_extend]
    rfl

theorem body_quoted_unfinished {quote : Char} {inside : Text} (absent : quote ∉ inside) :
    body (.quoted quote) inside = .stuck := by
  induction inside with
  | nil => rfl
  | cons c inside ih =>
    simp only [List.mem_cons, not_or] at absent
    rw [body_cons _ (by simp), step_quoted_other absent.1, ih absent.2]
    rfl

theorem body_braced {deeper : Nat} {inside : Text} (stays : StaysOpen deeper inside) (rest : Text) :
    body (.braced deeper) (inside ++ rest) =
      (body (.braced (deeper + inside.count '{' - inside.count '}')) rest).extend inside := by
  -- While the braces stay open, the depth follows the count of braces.
  induction inside generalizing deeper with
  | nil => simp [extend_nil]
  | cons c inside ih =>
    rw [List.cons_append, body_cons _ (by simp)]
    by_cases opens : c = '{'
    · subst opens
      have depth : deeper + 1 + inside.count '{' - inside.count '}' =
          deeper + (inside.count '{' + 1) - inside.count '}' := by omega
      rw [step_braced_open, ih (staysOpen_open.mp stays), extend_extend, List.count_cons_self,
        List.count_cons_of_ne (by decide), depth]
      rfl
    · by_cases closes : c = '}'
      · subst closes
        rcases staysOpen_close.mp stays with ⟨outer, rfl, inner⟩
        have depth : outer + inside.count '{' - inside.count '}' =
            outer + 1 + inside.count '{' - (inside.count '}' + 1) := by omega
        rw [step_braced_close, ih inner, extend_extend, List.count_cons_self,
          List.count_cons_of_ne (by decide), depth]
        rfl
      · rw [step_braced_other deeper opens closes, ih ((staysOpen_other opens closes).mp stays),
          extend_extend, List.count_cons_of_ne opens, List.count_cons_of_ne closes]
        rfl

theorem body_item {item : Text} (form : Item item) (rest : Text) :
    body .between (item ++ rest) = (body .between rest).extend item := by
  cases form with
  | @single c noQuote noBrace noEnd =>
    rw [List.singleton_append, body_cons rest (by simp [noEnd])]
    simp [Inside.step, noQuote, noBrace]
  | @quoted quote inside isQuoted absent =>
    rw [List.cons_append, List.append_assoc, List.singleton_append,
      body_cons _ (by simp [isQuote_ne_end isQuoted]), step_between_quote isQuoted, body_quoted absent,
      extend_extend]
    rfl
  | braced run =>
    rcases braceRun_iff.mp run with ⟨inside, rfl, stays, level⟩
    have start : Inside.step .between '{' = .braced 0 := by decide
    have finish : Inside.step (.braced 0) '}' = .between := by decide
    rw [List.cons_append, List.append_assoc, List.singleton_append, body_cons _ (by simp), start,
      body_braced stays, level, Nat.zero_add, Nat.sub_self, body_cons _ (by simp), finish,
      extend_extend, extend_extend]
    rfl

theorem body_items {raw : Text} (items : Items raw) (rest : Text) :
    body .between (raw ++ rest) = (body .between rest).extend raw := by
  induction items with
  | nil => exact (extend_nil _).symm
  | cons form _ ih => rw [List.append_assoc, body_item form, ih, extend_extend]

theorem body_broken {broken : Text} (form : Broken broken) : body .between broken = .stuck := by
  cases form with
  | @quoted quote inside isQuoted absent =>
    rw [body_cons _ (by simp [isQuote_ne_end isQuoted]), step_between_quote isQuoted,
      body_quoted_unfinished absent]
    rfl
  | @braced inside unfinished =>
    have stays : StaysOpen 0 inside := by
      intro part shorter
      have bound := unfinished ('{' :: part) (List.cons_prefix_cons.mpr ⟨rfl, shorter⟩) (by simp)
      rw [List.count_cons_self, List.count_cons_of_ne (by decide)] at bound
      omega
    have start : Inside.step .between '{' = .braced 0 := by decide
    have scanned := body_braced stays []
    rw [List.append_nil] at scanned
    rw [body_cons _ (by simp), start, scanned]
    rfl

/-! ### Every text goes on in one way -/

theorem braces_close_or_stay (deeper : Nat) (t : Text) :
    (∃ inside rest, t = inside ++ '}' :: rest ∧ StaysOpen deeper inside ∧
      inside.count '}' = deeper + inside.count '{') ∨ StaysOpen deeper t := by
  induction t generalizing deeper with
  | nil => exact .inr (staysOpen_nil deeper)
  | cons c t ih =>
    by_cases opens : c = '{'
    · subst opens
      rcases ih (deeper + 1) with ⟨inside, rest, rfl, stays, level⟩ | stays
      · refine .inl ⟨'{' :: inside, rest, rfl, staysOpen_open.mpr stays, ?_⟩
        rw [List.count_cons_self, List.count_cons_of_ne (by decide), level]
        omega
      · exact .inr (staysOpen_open.mpr stays)
    · by_cases closes : c = '}'
      · subst closes
        cases deeper with
        | zero => exact .inl ⟨[], t, rfl, staysOpen_nil 0, rfl⟩
        | succ outer =>
          rcases ih outer with ⟨inside, rest, rfl, stays, level⟩ | stays
          · refine .inl ⟨'}' :: inside, rest, rfl, staysOpen_close.mpr ⟨outer, rfl, stays⟩, ?_⟩
            rw [List.count_cons_self, List.count_cons_of_ne (by decide), level]
            omega
          · exact .inr (staysOpen_close.mpr ⟨outer, rfl, stays⟩)
      · rcases ih deeper with ⟨inside, rest, rfl, stays, level⟩ | stays
        · refine .inl ⟨c :: inside, rest, rfl, (staysOpen_other opens closes).mpr stays, ?_⟩
          rw [List.count_cons_of_ne opens, List.count_cons_of_ne closes, level]
        · exact .inr ((staysOpen_other opens closes).mpr stays)

theorem goesOn_item {item t : Text} {b : Body} (form : Item item) (goesOn : GoesOn t b) :
    GoesOn (item ++ t) (b.extend item) := by
  cases goesOn with
  | closed items =>
    rw [← List.append_assoc]
    exact .closed (.cons form items)
  | unended items => exact .unended (.cons form items)
  | stuck items broken =>
    rw [← List.append_assoc]
    exact .stuck (.cons form items) broken

theorem item_cases (t : Text) :
    t = [] ∨ (∃ rest, t = '>' :: rest) ∨ (∃ item rest, t = item ++ rest ∧ item ≠ [] ∧ Item item) ∨
      Broken t := by
  cases t with
  | nil => exact .inl rfl
  | cons c t =>
    right
    by_cases ends : c = '>'
    · exact .inl ⟨t, by rw [ends]⟩
    right
    by_cases isQuoted : isQuote c
    · by_cases member : c ∈ t
      · rcases List.eq_append_cons_of_mem member with ⟨inside, rest, rfl, absent⟩
        exact .inl ⟨c :: (inside ++ [c]), rest, by simp, by simp, .quoted isQuoted absent⟩
      · exact .inr (.quoted isQuoted member)
    · by_cases opens : c = '{'
      · subst opens
        rcases braces_close_or_stay 0 t with ⟨inside, rest, rfl, stays, level⟩ | stays
        · refine .inl ⟨'{' :: (inside ++ ['}']), rest, by simp, by simp, .braced ?_⟩
          exact braceRun_iff.mpr ⟨inside, rfl, stays, by omega⟩
        · refine .inr (.braced ?_)
          intro part shorter nonempty
          rcases List.prefix_cons_iff.mp shorter with rfl | ⟨tail, rfl, within⟩
          · exact absurd rfl nonempty
          · have bound := stays tail within
            rw [List.count_cons_self, List.count_cons_of_ne (by decide)]
            omega
      · exact .inl ⟨[c], t, rfl, by simp, .single (by simpa using isQuoted) opens ends⟩

theorem goesOn_exists (t : Text) : ∃ b, GoesOn t b := by
  induction size : t.length using Nat.strongRecOn generalizing t with
  | ind n ih =>
    rcases item_cases t with rfl | ⟨rest, rfl⟩ | ⟨item, rest, rfl, nonempty, form⟩ | broken
    · exact ⟨.unended, .unended .nil⟩
    · exact ⟨.closed [] rest, .closed .nil⟩
    · have shorter : rest.length < n := by
        have positive := List.length_pos_iff.mpr nonempty
        rw [List.length_append] at size
        omega
      rcases ih _ shorter rest rfl with ⟨b, goesOn⟩
      exact ⟨_, goesOn_item form goesOn⟩
    · exact ⟨.stuck, .stuck .nil broken⟩

theorem body_of_goesOn {t : Text} {b : Body} (goesOn : GoesOn t b) : body .between t = b := by
  cases goesOn with
  | @closed raw rest items =>
    rw [body_items items, body, if_pos ⟨rfl, rfl⟩]
    simp [Body.extend]
  | unended items =>
    have scanned := body_items items []
    rw [List.append_nil] at scanned
    exact scanned
  | stuck items broken =>
    rw [body_items items, body_broken broken]
    rfl

theorem body_eq_iff {t : Text} {b : Body} : body .between t = b ↔ GoesOn t b := by
  constructor
  · intro same
    subst same
    rcases goesOn_exists t with ⟨b, goesOn⟩
    rwa [body_of_goesOn goesOn]
  · exact body_of_goesOn

end TagCalls.Tag
