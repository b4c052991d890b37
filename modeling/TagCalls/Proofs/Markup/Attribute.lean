import TagCalls.Proofs.Attribute.Spelling
import TagCalls.Proofs.Tag.Body

/-!
Attributes as an author writes them, and what becomes of them: the scan passes over each as a
sequence of items, the parser reads each back, and together they make one object literal.
-/
namespace TagCalls.Markup

open Attribute (isQuote WrittenValue)

abbrev Name := { name : Text // name.IsName }

/-- A value that opens no brace inside of its braces. -/
def Flat : WrittenValue → Prop
  | .quoted _ _ _ _ => True
  | .braced inside _ => '{' ∉ inside

structure Attr where
  key : Name
  value : WrittenValue
  flat : Flat value

def Attr.render (attr : Attr) : Text := ' ' :: (attr.key.val ++ '=' :: attr.value.render)

def renderAttrs (attrs : List Attr) : Text := attrs.flatMap Attr.render

/-- In a call a quoted text keeps its quotes, and braces go. -/
def source : WrittenValue → Text
  | .quoted quote inside _ _ => quote :: (inside ++ [quote])
  | .braced inside _ => inside

def Attr.entry (attr : Attr) : Text := attr.key.val ++ ": ".toList ++ source attr.value

def object : List Attr → Text
  | [] => "null".toList
  | attrs => "\x7b".toList ++ List.intercalate ",".toList (attrs.map Attr.entry) ++ "\x7d".toList

theorem renderAttrs_cons (attr : Attr) (attrs : List Attr) :
    renderAttrs (attr :: attrs) = attr.render ++ renderAttrs attrs := rfl

/-! ### Reading attributes back -/

def Attr.parsed (attr : Attr) : Attribute := ⟨attr.key.val, attr.value.value⟩

theorem spells_attr (attr : Attr) : Attribute.Spells (attr.key.val ++ '=' :: attr.value.render) attr.parsed := by
  have whole := Attribute.Spells.item attr.key.property Text.blank_nil Text.blank_nil
    (Attribute.spells_value attr.value)
  rw [List.append_nil, List.nil_append] at whole
  exact whole

theorem parse_renderAttrs (attrs : List Attr) :
    Attribute.parse (renderAttrs attrs) = attrs.map Attr.parsed := by
  induction attrs with
  | nil => exact Pattern.occurrences_nil _
  | cons attr attrs ih =>
    have blank : Attribute.pattern.read? (' ' :: (attr.key.val ++ '=' :: attr.value.render ++
        renderAttrs attrs)) = none :=
      Attribute.read?_of_nameStops (Text.nameStops_cons.mpr (by decide))
    have found := Attribute.exact_pattern.read?_append (spells_attr attr) (renderAttrs attrs)
    rw [Attribute.parse, renderAttrs_cons, Attr.render, List.cons_append,
      Pattern.occurrences_of_none blank, Pattern.occurrences_of_read found, List.map_cons]
    exact congrArg _ ih

theorem literal_parsed (attrs : List Attr) : Attribute.literal (attrs.map Attr.parsed) = object attrs := by
  have entries : (attrs.map Attr.parsed).map Attribute.entry = attrs.map Attr.entry := by
    rw [List.map_map]
    apply List.map_congr_left
    intro attr _
    rcases attr with ⟨key, _ | _, _⟩ <;> rfl
  cases attrs with
  | nil => rfl
  | cons attr attrs =>
    rw [List.map_cons] at entries ⊢
    rw [Attribute.literal, entries]
    · rfl
    · simp

/-! ### Passing over attributes -/

theorem item_value {value : WrittenValue} (flat : Flat value) : Tag.Item value.render := by
  cases value with
  | quoted quote inside mark plain =>
    apply Tag.Item.quoted mark
    intro member
    have unmarked := plain quote member
    rw [mark] at unmarked
    cases unmarked
  | braced inside noClose =>
    have noOpen : '{' ∉ inside := flat
    apply Tag.Item.braced
    apply Tag.braceRun_iff.mpr
    refine ⟨inside, rfl, ?_, ?_⟩
    · intro part shorter
      have none : part.count '}' = 0 := List.count_eq_zero.mpr fun member => noClose (shorter.subset member)
      omega
    · rw [List.count_eq_zero.mpr noOpen, List.count_eq_zero.mpr noClose]

theorem items_attr (attr : Attr) : Tag.Items attr.render := by
  have front : Tag.Items (' ' :: (attr.key.val ++ ['='])) := by
    apply Tag.items_of_plain
    intro c member
    simp only [List.mem_cons, List.mem_append, List.not_mem_nil, or_false] at member
    rcases member with rfl | letter | rfl
    · decide
    · have named := attr.key.property.chars c letter
      refine ⟨?_, ?_, ?_⟩
      · by_cases mark : isQuote c
        · simp only [isQuote, Bool.or_eq_true, beq_iff_eq] at mark
          rcases mark with rfl | rfl <;> cases named
        · simpa using mark
      · intro same
        subst same
        cases named
      · intro same
        subst same
        cases named
    · decide
  have whole : attr.render = ' ' :: (attr.key.val ++ ['=']) ++ (attr.value.render ++ []) := by
    simp [Attr.render]
  rw [whole]
  exact Tag.items_append front (.cons (item_value attr.flat) .nil)

theorem items_renderAttrs (attrs : List Attr) : Tag.Items (renderAttrs attrs) := by
  induction attrs with
  | nil => exact .nil
  | cons attr attrs ih => exact Tag.items_append (items_attr attr) ih

theorem nameStops_renderAttrs (attrs : List Attr) {c : Char} (rest : Text)
    (other : Text.isNameChar c = false) : Text.NameStops (renderAttrs attrs ++ c :: rest) := by
  cases attrs with
  | nil => exact Text.nameStops_cons.mpr other
  | cons attr attrs => exact Text.nameStops_cons.mpr (by decide)

theorem getLast_render (attr : Attr) : attr.render.getLast? ≠ some '/' := by
  intro slash
  rcases attr with ⟨key, ⟨quote, inside, mark, plain⟩ | ⟨inside, noClose⟩, _⟩
  · have last : quote = '/' := by
      simpa [Attr.render, WrittenValue.render, List.getLast?_cons, List.getLast?_append] using slash
    rw [last] at mark
    cases mark
  · simp [Attr.render, WrittenValue.render, List.getLast?_cons, List.getLast?_append] at slash

theorem getLast_renderAttrs (attrs : List Attr) : (renderAttrs attrs).getLast? ≠ some '/' := by
  induction attrs with
  | nil => simp [renderAttrs]
  | cons attr attrs ih =>
    rw [renderAttrs_cons, List.getLast?_append]
    intro slash
    cases last : (renderAttrs attrs).getLast? with
    | none =>
      rw [last] at slash
      exact getLast_render attr slash
    | some c =>
      rw [last] at slash ih
      exact ih slash

end TagCalls.Markup
