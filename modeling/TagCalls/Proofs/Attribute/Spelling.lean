import TagCalls.Attribute
import TagCalls.Proofs.Text.Blank
import TagCalls.Proofs.Text.Language

/-!
How attributes are spelled. The language of attributes is said without regard to how one is read, and the
parser's pattern reads exactly this language. Main statement: `parse_leftmost`.
-/
namespace TagCalls.Attribute

open Text (Blank IsName)

/-- How a value is written. Either quote ends a quoted text, and the first closing brace ends a braced one. -/
inductive Value.Spells : Text → Value → Prop
  | literal {opening closing : Char} {inside : Text} : isQuote opening → isQuote closing →
      (∀ c ∈ inside, isQuote c = false) →
      Value.Spells (opening :: (inside ++ [closing])) (.literal (opening :: (inside ++ [closing])))
  | expression {inside : Text} : '}' ∉ inside → Value.Spells ('{' :: (inside ++ ['}'])) (.expression inside)

/-- How an attribute is written: a name, the sign and a value, with white space on either side of the sign. -/
inductive Spells : Text → Attribute → Prop
  | item {key before behind written : Text} {value : Value} : IsName key → Blank before → Blank behind →
      Value.Spells written value → Spells (key ++ before ++ '=' :: (behind ++ written)) ⟨key, value⟩

/-- A value as an author writes it, with the same quote at either end or with braces. -/
inductive WrittenValue where
  | quoted (quote : Char) (inside : Text) (mark : isQuote quote) (plain : ∀ c ∈ inside, isQuote c = false)
  | braced (inside : Text) (absent : '}' ∉ inside)

def WrittenValue.render : WrittenValue → Text
  | .quoted quote inside _ _ => quote :: (inside ++ [quote])
  | .braced inside _ => '{' :: (inside ++ ['}'])

def WrittenValue.value : WrittenValue → Value
  | .quoted quote inside _ _ => .literal (quote :: (inside ++ [quote]))
  | .braced inside _ => .expression inside

theorem spells_value (value : WrittenValue) : Value.Spells value.render value.value := by
  cases value with
  | quoted quote inside mark plain => exact .literal mark mark plain
  | braced inside absent => exact .expression absent

/-! ### Values -/

theorem split_at_quote {t inside rest : Text} {closing : Char} :
    t.takeWhile (!isQuote ·) = inside ∧ t.dropWhile (!isQuote ·) = closing :: rest ↔
      t = inside ++ closing :: rest ∧ (∀ c ∈ inside, isQuote c = false) ∧ isQuote closing := by
  constructor
  · intro parts
    rcases parts with ⟨rfl, dropped⟩
    have whole := List.takeWhile_append_dropWhile (p := (!isQuote ·)) (l := t)
    have stop := List.head?_dropWhile_not (!isQuote ·) t
    rw [dropped] at whole stop
    refine ⟨whole.symm, ?_, by simpa using stop⟩
    intro c member
    simpa using List.all_eq_true.mp List.all_takeWhile c member
  · intro shape
    rcases shape with ⟨rfl, plain, mark⟩
    have inner : ∀ c ∈ inside, (!isQuote c) = true := by
      intro c member
      rw [plain c member, Bool.not_false]
    rw [List.takeWhile_append_of_pos inner, List.dropWhile_append_of_pos inner]
    simp [mark]

theorem isQuote_brace : isQuote '{' = false := by decide

theorem Value.read?_eq_some_iff {t rest : Text} {value : Value} :
    Value.read? t = some (value, rest) ↔ ∃ word, t = word ++ rest ∧ Value.Spells word value := by
  constructor
  · intro read
    cases t with
    | nil => cases read
    | cons c t =>
      simp only [Value.read?] at read
      split at read
      · next mark =>
        split at read
        · cases read
        · next closing behind dropped =>
          cases read
          rcases split_at_quote.mp ⟨rfl, dropped⟩ with ⟨split, plain, ends⟩
          exact ⟨_, by simpa using split, .literal mark ends plain⟩
      · split at read
        · next brace =>
          subst brace
          rcases Option.map_eq_some_iff.mp read with ⟨⟨inside, behind⟩, first, same⟩
          cases same
          rcases Text.splitFirst?_eq_some first with ⟨rfl, absent⟩
          exact ⟨_, by simp, .expression absent⟩
        · cases read
  · intro spelled
    rcases spelled with ⟨word, rfl, spelled⟩
    cases spelled with
    | @literal opening closing inside begins ends plain =>
      have shape : inside ++ [closing] ++ rest = inside ++ closing :: rest := by simp
      rcases split_at_quote.mpr ⟨shape, plain, ends⟩ with ⟨taken, dropped⟩
      rw [shape] at taken dropped
      simp only [List.cons_append, shape, Value.read?, begins, if_true, dropped, taken]
    | @expression inside absent =>
      have shape : inside ++ ['}'] ++ rest = inside ++ '}' :: rest := by simp
      simp only [List.cons_append, shape, Value.read?, isQuote_brace, Bool.false_eq_true, if_false, if_true,
        Text.splitFirst?_append absent, Option.map_some]

theorem Value.blankStops {word : Text} {value : Value} (spelled : Value.Spells word value) (rest : Text) :
    Text.BlankStops (word ++ rest) := by
  cases spelled with
  | literal begins _ _ =>
    apply Text.blankStops_cons.mpr
    simp only [isQuote, Bool.or_eq_true, beq_iff_eq] at begins
    rcases begins with rfl | rfl <;> decide
  | expression _ => exact Text.blankStops_cons.mpr (by decide)

/-! ### Attributes -/

theorem read?_eq_some_iff {t rest : Text} {item : Attribute} :
    read? t = some (item, rest) ↔ ∃ word, t = word ++ rest ∧ Spells word item := by
  constructor
  · intro read
    simp only [read?, Option.bind_eq_bind, Option.bind_eq_some_iff, Prod.exists, Option.pure_def,
      Option.some.injEq, Prod.mk.injEq] at read
    rcases read with ⟨key, signed, taken, valued, sign, value, _, last, rfl, rfl⟩
    rcases Text.takeName?_eq_some_iff.mp taken with ⟨rfl, named, _⟩
    rcases Text.dropBlanks_eq_iff.mp (Text.dropLiteral?_eq_some sign) with ⟨before, rfl, front, _⟩
    rcases Value.read?_eq_some_iff.mp last with ⟨written, dropped, spelled⟩
    rcases Text.dropBlanks_eq_iff.mp dropped with ⟨behind, rfl, back, _⟩
    exact ⟨_, by simp, .item named front back spelled⟩
  · intro spelled
    rcases spelled with ⟨word, rfl, spelled⟩
    cases spelled with
    | @item key before behind written value named front back spelled =>
      have shape : key ++ before ++ '=' :: (behind ++ written) ++ rest =
          key ++ (before ++ '=' :: (behind ++ (written ++ rest))) := by simp
      have ends : Text.NameStops ('=' :: (behind ++ (written ++ rest))) := Text.nameStops_cons.mpr (by decide)
      have taken := Text.takeName?_append named (Text.nameStops_append front ends)
      have signed : Text.dropBlanks (before ++ '=' :: (behind ++ (written ++ rest))) =
          '=' :: (behind ++ (written ++ rest)) :=
        Text.dropBlanks_eq_iff.mpr ⟨before, rfl, front, Text.blankStops_cons.mpr (by decide)⟩
      have sign : Text.dropLiteral? ['='] ('=' :: (behind ++ (written ++ rest))) =
          some (behind ++ (written ++ rest)) := Text.dropLiteral?_append ['='] _
      have valued : Text.dropBlanks (behind ++ (written ++ rest)) = written ++ rest :=
        Text.dropBlanks_eq_iff.mpr ⟨behind, rfl, back, Value.blankStops spelled rest⟩
      have last : Value.read? (written ++ rest) = some (value, rest) :=
        Value.read?_eq_some_iff.mpr ⟨written, rfl, spelled⟩
      rw [shape]
      simp only [read?, taken, signed, sign, valued, last, Option.bind_eq_bind, Option.bind_some, Option.pure_def]

theorem exact_pattern : pattern.Exact Spells := by
  intro t item rest
  exact read?_eq_some_iff

theorem read?_of_nameStops {t : Text} (stops : Text.NameStops t) : read? t = none := by
  simp only [read?, Text.takeName?_eq_none stops, Option.bind_eq_bind, Option.bind_none]

/-! ### The parser -/

theorem literal_eq_null_iff (items : List Attribute) : literal items = "null".toList ↔ items = [] := by
  cases items with
  | nil => simp [literal]
  | cons item items => simp [literal]

theorem literal_of_ne_nil {items : List Attribute} (nonempty : items ≠ []) :
    literal items = "\x7b".toList ++ List.intercalate ",".toList (items.map entry) ++ "\x7d".toList := by
  cases items with
  | nil => exact absurd rfl nonempty
  | cons item items => rfl

/-- A text has one cut into attributes and characters at which none begins. The parser gives the attributes of
this cut, in order, and they are written as an object, or as `null` if there are none. -/
theorem parse_leftmost (raw : Text) :
    ∃ cut, Cut (Spelled Spells) raw cut ∧ (∀ other, Cut (Spelled Spells) raw other → other = cut) ∧
      (∀ items, List.Forall₂ Spells (Segment.values cut) items ↔ items = parse raw) ∧
      (literal (parse raw) = "null".toList ↔ Segment.values cut = []) ∧
      (Segment.values cut ≠ [] → literal (parse raw) = "\x7b".toList ++ List.intercalate ",".toList
        ((parse raw).map fun
          | ⟨key, .literal quoted⟩ => key ++ ": ".toList ++ quoted
          | ⟨key, .expression inside⟩ => key ++ ": ".toList ++ inside) ++ "\x7d".toList) := by
  rcases exact_pattern.unique_cut raw with ⟨cut, walk, unique, values⟩
  have known : List.Forall₂ Spells (Segment.values cut) (parse raw) := (values _).mpr rfl
  have empty : parse raw = [] ↔ Segment.values cut = [] := by
    rw [← List.length_eq_zero_iff, ← List.length_eq_zero_iff, known.length_eq]
  refine ⟨cut, walk, unique, values, ?_, ?_⟩
  · rw [literal_eq_null_iff, empty]
  · intro found
    rw [literal_of_ne_nil fun none => found (empty.mp none)]
    congr 3
    apply List.map_congr_left
    intro item _
    rcases item with ⟨key, _ | _⟩ <;> rfl

end TagCalls.Attribute
