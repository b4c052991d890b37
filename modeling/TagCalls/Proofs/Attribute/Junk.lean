import TagCalls.Proofs.Attribute.Spelling

/-!
Attributes among junk. A line holds attributes, bare words and words with a bare value, with white space between
them. A bare word is no attribute, since no sign follows it, and a bare value is not taken for one; so the parser
gives the attributes of the line and passes over the rest. Main statement: `parse_line`.
-/
namespace TagCalls.Attribute

open Text (Blank BlankStops NameStops)

abbrev Gap := { gap : Text // Blank gap }

/-- A word without white space and without the signs that attributes are written with. -/
structure Junk where
  text : Text
  nonempty : text ≠ []
  chars : ∀ c ∈ text, Text.isBlank c = false ∧ isQuote c = false ∧ c ∉ ['=', '{', '}']

inductive Item where
  | proper (key : { name : Text // name.IsName }) (before behind : Gap) (value : WrittenValue)
  | word (word : Junk)
  | half (word value : Junk)

namespace Item

def render : Item → Text
  | .proper key before behind value => key.val ++ before.val ++ '=' :: (behind.val ++ value.render)
  | .word junk => junk.text
  | .half junk value => junk.text ++ '=' :: value.text

def attribute? : Item → Option Attribute
  | .proper key _ _ value => some ⟨key.val, value.value⟩
  | .word _ => none
  | .half _ _ => none

end Item

/-- Items with the white space before each of them, which only the first can do without, and white space behind
the last. -/
structure Line where
  items : List (Gap × Item)
  trail : Gap
  apart : ∀ spaced ∈ items.tail, spaced.1.val ≠ []

def renderItems (items : List (Gap × Item)) (trail : Gap) : Text :=
  items.flatMap (fun (gap, item) => gap.val ++ item.render) ++ trail.val

def Line.render (line : Line) : Text := renderItems line.items line.trail

theorem renderItems_cons (gap : Gap) (item : Item) (items : List (Gap × Item)) (trail : Gap) :
    renderItems ((gap, item) :: items) trail = gap.val ++ (item.render ++ renderItems items trail) := by
  simp [renderItems]

theorem spells_proper (key : { name : Text // name.IsName }) (before behind : Gap) (value : WrittenValue) :
    Spells (Item.proper key before behind value).render ⟨key.val, value.value⟩ :=
  .item key.property before.property behind.property (spells_value value)

/-! ### Words that no sign follows -/

/-- A text that ends the word before it and in which the next character is no sign. -/
structure Parted (t : Text) : Prop where
  stops : NameStops t
  unsigned : ∀ c ∈ (Text.dropBlanks t).head?, c ≠ '='

theorem sign_of_read {word t rest : Text} {item : Attribute}
    (chars : ∀ c ∈ word, Text.isBlank c = false ∧ c ≠ '=') (stops : NameStops t)
    (read : read? (word ++ t) = some (item, rest)) :
    ∃ signed, Text.dropBlanks t = '=' :: signed ∧ Value.read? (Text.dropBlanks signed) = some (item.value, rest) := by
  simp only [read?, Option.bind_eq_bind, Option.bind_eq_some_iff, Prod.exists, Option.pure_def,
    Option.some.injEq, Prod.mk.injEq] at read
  rcases read with ⟨key, behind, taken, signed, sign, value, _, last, rfl, rfl⟩
  have follows := Text.dropLiteral?_eq_some sign
  rcases Text.takeName?_eq_some_iff.mp taken with ⟨whole, named, _⟩
  rcases List.append_eq_append_iff.mp whole with ⟨more, rfl, rfl⟩ | ⟨more, rfl, rfl⟩
  · -- The name has taken the word and `more`, but it cannot go on there.
    cases more with
    | nil => exact ⟨signed, follows, last⟩
    | cons c more =>
      have letter := named.chars c (by simp)
      rw [Text.nameStops_cons.mp stops] at letter
      cases letter
  · -- The name ends before `more`, a part of the word and no sign.
    cases more with
    | nil => exact ⟨signed, follows, last⟩
    | cons c more =>
      rcases chars c (by simp) with ⟨visible, other⟩
      rw [List.cons_append, Text.dropBlanks_of_blankStops (Text.blankStops_cons.mpr visible)] at follows
      exact absurd (List.cons.inj follows).1 other

theorem Junk.plain (junk : Junk) : ∀ c ∈ junk.text, Text.isBlank c = false ∧ c ≠ '=' := by
  intro c member
  rcases junk.chars c member with ⟨visible, _, foreign⟩
  exact ⟨visible, fun same => foreign (by simp [same])⟩

theorem Junk.head (junk : Junk) : ∃ c tail, junk.text = c :: tail ∧
    Text.isBlank c = false ∧ isQuote c = false ∧ c ∉ ['=', '{', '}'] := by
  cases shape : junk.text with
  | nil => exact absurd shape junk.nonempty
  | cons c tail => exact ⟨c, tail, rfl, junk.chars c (by simp [shape])⟩

theorem silent_of_foreign {gap : Text} (foreign : ∀ c ∈ gap, Text.isNameChar c = false) (rest : Text) :
    pattern.Silent gap rest := by
  intro back shorter nonempty
  cases back with
  | nil => exact absurd rfl nonempty
  | cons c back =>
    apply read?_of_nameStops
    exact Text.nameStops_cons.mpr (foreign c (shorter.subset List.mem_cons_self))

theorem silent_blank {gap : Text} (blank : Blank gap) (rest : Text) : pattern.Silent gap rest :=
  silent_of_foreign (fun c member => Text.isNameChar_of_isBlank (blank c member)) rest

theorem silent_word (word : Junk) {rest : Text} (parted : Parted rest) : pattern.Silent word.text rest := by
  intro back shorter _
  apply Option.eq_none_iff_forall_ne_some.mpr
  intro found read
  rcases sign_of_read (fun c member => word.plain c (shorter.subset member)) parted.stops read with
    ⟨signed, sign, _⟩
  exact parted.unsigned '=' (by rw [sign]; rfl) rfl

theorem Value.read?_junk (junk : Junk) (rest : Text) : Value.read? (Text.dropBlanks (junk.text ++ rest)) = none := by
  rcases junk.head with ⟨c, tail, shape, visible, unquoted, foreign⟩
  have brace : c ≠ '{' := fun same => foreign (by simp [same])
  rw [shape, List.cons_append, Text.dropBlanks_of_blankStops (Text.blankStops_cons.mpr visible)]
  simp only [Value.read?, unquoted, brace, if_false, Bool.false_eq_true]

theorem silent_half (word value : Junk) {rest : Text} (parted : Parted rest) :
    pattern.Silent (word.text ++ '=' :: value.text) rest := by
  have foreign : Text.isNameChar '=' = false := by decide
  have sign : pattern.Silent ['='] (value.text ++ rest) :=
    silent_of_foreign (List.forall_mem_singleton.mpr foreign) _
  have behind : pattern.Silent ('=' :: value.text) rest := sign.append (silent_word value parted)
  apply Pattern.Silent.append _ behind
  intro back shorter _
  apply Option.eq_none_iff_forall_ne_some.mpr
  intro found read
  rcases sign_of_read (fun c member => word.plain c (shorter.subset member))
      (Text.nameStops_cons.mpr foreign) read with
    ⟨signed, sign, valued⟩
  -- What is read as a value is the bare one.
  have bare : '=' :: (value.text ++ rest) = '=' :: signed := sign
  rw [← (List.cons.inj bare).2, Value.read?_junk value rest] at valued
  cases valued

/-! ### Lines -/

theorem Item.head (item : Item) : ∃ c tail, item.render = c :: tail ∧ Text.isBlank c = false ∧ c ≠ '=' := by
  have word (junk : Junk) (more : Text) :
      ∃ c tail, junk.text ++ more = c :: tail ∧ Text.isBlank c = false ∧ c ≠ '=' := by
    rcases junk.head with ⟨c, tail, shape, visible, _, foreign⟩
    exact ⟨c, tail ++ more, by rw [shape, List.cons_append], visible, fun same => foreign (by simp [same])⟩
  cases item with
  | proper key before behind value =>
    rcases key.property.head with ⟨c, tail, shape, letter⟩
    refine ⟨c, tail ++ before.val ++ '=' :: (behind.val ++ value.render), ?_, Text.isBlank_of_isNameChar letter, ?_⟩
    · rw [render, shape]
      rfl
    · intro same
      subst same
      cases letter
  | word junk => simpa [render] using word junk []
  | half junk value => exact word junk ('=' :: value.text)

theorem parse_item (item : Item) {rest : Text} (parted : Parted rest) :
    parse (item.render ++ rest) = item.attribute?.toList ++ parse rest := by
  cases item with
  | proper key before behind value =>
    exact Pattern.occurrences_of_read (exact_pattern.read?_append (spells_proper key before behind value) rest)
  | word junk => exact Pattern.occurrences_append (silent_word junk parted)
  | half junk value => exact Pattern.occurrences_append (silent_half junk value parted)

theorem parted_renderItems (items : List (Gap × Item)) (trail : Gap) (apart : ∀ spaced ∈ items, spaced.1.val ≠ []) :
    Parted (renderItems items trail) := by
  cases items with
  | nil =>
    have shape : renderItems [] trail = trail.val ++ [] := (List.append_nil _).symm
    rw [shape]
    constructor
    · exact Text.nameStops_append trail.property Text.nameStops_nil
    · intro c first
      rw [Text.dropBlanks_append trail.property] at first
      cases first
  | cons spaced items =>
    rcases spaced with ⟨gap, item⟩
    rcases item.head with ⟨c, tail, shape, visible, other⟩
    have next : BlankStops (item.render ++ renderItems items trail) := by
      rw [shape]
      exact Text.blankStops_cons.mpr visible
    rw [renderItems_cons]
    constructor
    · cases blank : gap.val with
      | nil => exact absurd blank (apart (gap, item) List.mem_cons_self)
      | cons d more =>
        exact Text.nameStops_cons.mpr (Text.isNameChar_of_isBlank (gap.property d (by simp [blank])))
    · intro d first
      rw [Text.dropBlanks_append gap.property, Text.dropBlanks_of_blankStops next, shape] at first
      cases first
      exact other

/-- The parser gives the attributes of a line in their order, whatever junk stands among them. -/
theorem parse_line (line : Line) :
    parse line.render = line.items.filterMap fun (_, item) => item.attribute? := by
  rcases line with ⟨items, trail, apart⟩
  change parse (renderItems items trail) = items.filterMap fun (_, item) => item.attribute?
  induction items with
  | nil =>
    have none := Pattern.occurrences_append (silent_blank trail.property [])
    rw [List.append_nil, Pattern.occurrences_nil] at none
    exact none
  | cons spaced items ih =>
    rcases spaced with ⟨gap, item⟩
    have skipped := Pattern.occurrences_append
      (silent_blank gap.property (item.render ++ renderItems items trail))
    have behind := ih fun spaced member => apart spaced (List.mem_of_mem_tail member)
    calc
      parse (renderItems ((gap, item) :: items) trail)
          = parse (item.render ++ renderItems items trail) := by
        rw [renderItems_cons]
        exact skipped
      _ = item.attribute?.toList ++ parse (renderItems items trail) :=
        parse_item item (parted_renderItems items trail apart)
      _ = item.attribute?.toList ++ items.filterMap fun (_, item) => item.attribute? := by rw [behind]
      _ = ((gap, item) :: items).filterMap fun (_, item) => item.attribute? := by
        cases item <;> rfl

end TagCalls.Attribute
