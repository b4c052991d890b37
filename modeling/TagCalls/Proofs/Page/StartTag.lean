import TagCalls.Page.Locate
import TagCalls.Proofs.Page.Walk

/-!
Attributes of a start tag as they are written: a name with spaces before it, alone or with a quoted
value. The three readers of a start tag agree on them: its `>` is not looked for inside a value, each
attribute is found again, and what is asked of the attributes is read off what was written.
-/
namespace TagCalls.Page

structure Quoted where
  quote : Char
  text : Text
  isQuote : quote = '"' ∨ quote = '\''
  free : quote ∉ text

def Quoted.double (text : Text) (free : '"' ∉ text) : Quoted := ⟨'"', text, .inl rfl, free⟩

structure Written where
  /-- How many spaces stand before the name, besides one. -/
  spaces : Nat
  name : Text
  value : Option Quoted
  nonempty : name ≠ []
  chars : ∀ c ∈ name, Text.isBlank c = false ∧ c ∉ ['=', '/', '>', '<', '"', '\'']

theorem written_chars {name : Text}
    (checked : name.all (fun c => decide (Text.isBlank c = false ∧ c ∉ ['=', '/', '>', '<', '"', '\''])) = true) :
    ∀ c ∈ name, Text.isBlank c = false ∧ c ∉ ['=', '/', '>', '<', '"', '\''] := by
  intro c member
  exact of_decide_eq_true (List.all_eq_true.mp checked c member)

def Quoted.render (value : Quoted) : Text := value.quote :: (value.text ++ [value.quote])

namespace Written

def sign (item : Written) : Text :=
  match item.value with
  | none => []
  | some value => '=' :: value.render

def render (item : Written) : Text := List.replicate (item.spaces + 1) ' ' ++ (item.name ++ item.sign)

def item (item : Written) : StartAttribute := (item.name, item.value.map Quoted.text)

end Written

def renderStart (items : List Written) (spaces : Nat) : Text :=
  items.flatMap Written.render ++ List.replicate spaces ' '

theorem renderStart_cons (item : Written) (items : List Written) (spaces : Nat) :
    renderStart (item :: items) spaces = item.render ++ renderStart items spaces := by
  rw [renderStart, List.flatMap_cons, List.append_assoc, renderStart]

theorem renderStart_head (items : List Written) (spaces : Nat) :
    ∀ c ∈ (renderStart items spaces).head?, c = ' ' := by
  intro c head
  cases items with
  | nil =>
    cases spaces with
    | zero => cases head
    | succ spaces => exact (Option.some.inj head).symm
  | cons item items => exact (Option.some.inj head).symm

/-! ### The end of the start tag -/

section
variable {t inner rest : Text}

theorem splitStartTag?_plain {front : Text} (plain : ∀ c ∈ front, c ∉ ['>', '"', '\''])
    (found : splitStartTag? none t = some (inner, rest)) :
    splitStartTag? none (front ++ t) = some (front ++ inner, rest) := by
  induction front with
  | nil => exact found
  | cons c front ih =>
    have here := plain c List.mem_cons_self
    simp only [List.mem_cons, List.not_mem_nil, or_false, not_or] at here
    have deeper := ih fun d member => plain d (List.mem_cons_of_mem c member)
    simp [splitStartTag?, here, deeper]

theorem splitStartTag?_value {quote : Char} {value : Text} (free : quote ∉ value)
    (found : splitStartTag? none t = some (inner, rest)) :
    splitStartTag? (some quote) (value ++ quote :: t) = some (value ++ quote :: inner, rest) := by
  induction value with
  | nil => simp [splitStartTag?, found]
  | cons c value ih =>
    rcases List.ne_and_not_mem_of_not_mem_cons free with ⟨other, later⟩
    simp [splitStartTag?, Ne.symm other, ih later]

theorem splitStartTag?_quoted (value : Quoted) (found : splitStartTag? none t = some (inner, rest)) :
    splitStartTag? none (value.render ++ t) = some (value.render ++ inner, rest) := by
  have open' : value.quote ≠ '>' := by
    rcases value.isQuote with same | same <;> rw [same] <;> decide
  have inside := splitStartTag?_value value.free found
  rw [Quoted.render, List.cons_append, List.append_assoc, List.singleton_append, splitStartTag?,
    if_neg open', if_pos value.isQuote, inside]
  simp

theorem splitStartTag?_written (item : Written) (found : splitStartTag? none t = some (inner, rest)) :
    splitStartTag? none (item.render ++ t) = some (item.render ++ inner, rest) := by
  have sign : splitStartTag? none (item.sign ++ t) = some (item.sign ++ inner, rest) := by
    unfold Written.sign
    cases item.value with
    | none => exact found
    | some value =>
      have plain : ∀ c ∈ ['='], c ∉ ['>', '"', '\''] := by
        intro c member
        rw [List.mem_singleton.mp member]
        decide
      have whole := splitStartTag?_plain plain (splitStartTag?_quoted value found)
      exact whole
  have named : splitStartTag? none (item.name ++ (item.sign ++ t)) =
      some (item.name ++ (item.sign ++ inner), rest) := by
    apply splitStartTag?_plain _ sign
    intro c member
    have allowed := (item.chars c member).2
    simp only [List.mem_cons, List.not_mem_nil, or_false, not_or] at allowed ⊢
    exact ⟨allowed.2.2.1, allowed.2.2.2.2⟩
  have spaced : ∀ c ∈ List.replicate (item.spaces + 1) ' ', c ∉ ['>', '"', '\''] := by
    intro c member
    rw [List.eq_of_mem_replicate member]
    decide
  have whole := splitStartTag?_plain spaced named
  simpa [Written.render] using whole

theorem splitStartTag?_renderStart (items : List Written) (spaces : Nat) :
    splitStartTag? none (renderStart items spaces ++ ['>']) = some (renderStart items spaces, []) := by
  induction items with
  | nil =>
    have bare : splitStartTag? none ['>'] = some ([], []) := rfl
    have spaced : ∀ c ∈ List.replicate spaces ' ', c ∉ ['>', '"', '\''] := by
      intro c member
      rw [List.eq_of_mem_replicate member]
      decide
    have found := splitStartTag?_plain spaced bare
    rwa [List.append_nil] at found
  | cons item items ih =>
    rw [renderStart_cons, List.append_assoc]
    exact splitStartTag?_written item ih

end

/-! ### The attributes -/

theorem takeWhile_stop {p : Char → Bool} {front t : Text} (inside : ∀ c ∈ front, p c = true)
    (stops : ∀ c ∈ t.head?, p c = false) : (front ++ t).takeWhile p = front := by
  rw [List.takeWhile_append_of_pos inside]
  cases t with
  | nil => simp
  | cons c t => simp [stops c rfl]

theorem dropWhile_stop {p : Char → Bool} {front t : Text} (inside : ∀ c ∈ front, p c = true)
    (stops : ∀ c ∈ t.head?, p c = false) : (front ++ t).dropWhile p = t := by
  rw [List.dropWhile_append_of_pos inside]
  cases t with
  | nil => rfl
  | cons c t => simp [stops c rfl]

/-- The attributes from a name on, when `t` follows it behind blanks. -/
def attributesBehind (name t : Text) : List StartAttribute :=
  match t with
  | '=' :: behind =>
    (name, some (readValue (Text.dropBlanks behind)).1) ::
      startAttributesFrom (readValue (Text.dropBlanks behind)).2
  | _ => (name, none) :: startAttributesFrom t

theorem startAttributesFrom_eq (t : Text) :
    startAttributesFrom t =
      let named := t.dropWhile fun c => Text.isBlank c || c == '/'
      let name := named.takeWhile isAttributeNameChar
      if name = [] then []
      else attributesBehind name (Text.dropBlanks (named.dropWhile isAttributeNameChar)) := by
  rw [startAttributesFrom]
  dsimp only
  split
  · rfl
  · split
    · next sign =>
      rw [sign]
      rfl
    · next bare =>
      unfold attributesBehind
      split
      · next sign => exact absurd sign (bare _)
      · rfl

theorem attributesBehind_bare (name t : Text) (unsigned : ∀ c ∈ t.head?, c ≠ '=') :
    attributesBehind name t = (name, none) :: startAttributesFrom t := by
  unfold attributesBehind
  split
  · exact absurd rfl (unsigned '=' rfl)
  · rfl

theorem startAttributesFrom_named {blanks name after : Text}
    (blank : ∀ c ∈ blanks, Text.isBlank c = true) (nonempty : name ≠ [])
    (chars : ∀ c ∈ name, isAttributeNameChar c = true)
    (stops : ∀ c ∈ after.head?, isAttributeNameChar c = false) :
    startAttributesFrom (blanks ++ (name ++ after)) = attributesBehind name (Text.dropBlanks after) := by
  have named : (blanks ++ (name ++ after)).dropWhile (fun c => Text.isBlank c || c == '/') =
      name ++ after := by
    apply dropWhile_stop
    · intro c member
      simp [blank c member]
    · intro c head
      rcases List.exists_cons_of_ne_nil nonempty with ⟨first, tail, rfl⟩
      cases head
      have letter := chars c List.mem_cons_self
      simp only [isAttributeNameChar, Bool.and_eq_true, Bool.not_eq_true', bne_iff_ne] at letter
      simp [letter]
  rw [startAttributesFrom_eq]
  simp only [named, takeWhile_stop chars stops, dropWhile_stop chars stops, if_neg nonempty]

theorem startAttributesFrom_blanks (blanks t : Text) (blank : ∀ c ∈ blanks, Text.isBlank c = true) :
    startAttributesFrom (blanks ++ t) = startAttributesFrom t := by
  have same : (blanks ++ t).dropWhile (fun c => Text.isBlank c || c == '/') =
      t.dropWhile fun c => Text.isBlank c || c == '/' :=
    List.dropWhile_append_of_pos fun c member => by simp [blank c member]
  rw [startAttributesFrom_eq, startAttributesFrom_eq, same]

theorem startAttributesFrom_dropBlanks (t : Text) :
    startAttributesFrom (Text.dropBlanks t) = startAttributesFrom t := by
  have split : t.takeWhile Text.isBlank ++ Text.dropBlanks t = t := List.takeWhile_append_dropWhile
  have blank : ∀ c ∈ t.takeWhile Text.isBlank, Text.isBlank c = true :=
    List.all_eq_true.mp List.all_takeWhile
  have whole := startAttributesFrom_blanks _ (Text.dropBlanks t) blank
  rw [split] at whole
  exact whole.symm

theorem isBlank_spaces (n : Nat) : ∀ c ∈ List.replicate n ' ', Text.isBlank c = true := by
  intro c member
  rw [List.eq_of_mem_replicate member]
  decide

theorem Written.isNameChar (item : Written) : ∀ c ∈ item.name, isAttributeNameChar c = true := by
  intro c member
  rcases item.chars c member with ⟨visible, allowed⟩
  simp only [List.mem_cons, List.not_mem_nil, or_false, not_or] at allowed
  simp [isAttributeNameChar, visible, allowed]

theorem readValue_quoted (value : Quoted) (t : Text) :
    readValue (value.render ++ t) = (value.text, t) := by
  have front : ∀ c ∈ value.text, (c != value.quote) = true := by
    intro c member
    simp only [bne_iff_ne, ne_eq]
    intro same
    exact value.free (same ▸ member)
  have stops : ∀ c ∈ (value.quote :: t).head?, (c != value.quote) = false := by
    intro c head
    cases head
    simp
  rw [Quoted.render, List.cons_append, List.append_assoc, List.singleton_append, readValue,
    if_pos value.isQuote, takeWhile_stop front stops, dropWhile_stop front stops]
  rfl

theorem startAttributesFrom_valued (item : Written) (value : Quoted) (valued : item.value = some value)
    (t : Text) : startAttributesFrom (item.render ++ t) = item.item :: startAttributesFrom t := by
  have shape : item.render ++ t = List.replicate (item.spaces + 1) ' ' ++
      (item.name ++ ('=' :: (value.render ++ t))) := by
    simp [Written.render, Written.sign, valued]
  have stops : ∀ c ∈ ('=' :: (value.render ++ t)).head?, isAttributeNameChar c = false := by
    intro c head
    cases head
    decide
  have quoted : Text.dropBlanks (value.render ++ t) = value.render ++ t := by
    rw [Quoted.render]
    rcases value.isQuote with same | same <;> rw [same] <;> rfl
  calc
    startAttributesFrom (item.render ++ t)
        = attributesBehind item.name (Text.dropBlanks ('=' :: (value.render ++ t))) := by
      rw [shape]
      exact startAttributesFrom_named (isBlank_spaces _) item.nonempty item.isNameChar stops
    _ = (item.name, some (readValue (value.render ++ t)).1) ::
          startAttributesFrom (readValue (value.render ++ t)).2 := by
      have unblank : Text.dropBlanks ('=' :: (value.render ++ t)) = '=' :: (value.render ++ t) := rfl
      rw [unblank, attributesBehind, quoted]
    _ = item.item :: startAttributesFrom t := by
      rw [readValue_quoted, Written.item, valued]
      rfl

theorem dropBlanks_renderStart (items : List Written) (spaces : Nat) :
    ∀ c ∈ (Text.dropBlanks (renderStart items spaces)).head?, c ≠ '=' := by
  intro c head same
  subst same
  cases items with
  | nil =>
    have none := dropWhile_stop (t := []) (isBlank_spaces spaces) (fun _ head => by cases head)
    rw [renderStart, List.flatMap_nil, List.nil_append, Text.dropBlanks, ← List.append_nil (List.replicate _ _),
      none] at head
    cases head
  | cons item items =>
    rcases List.exists_cons_of_ne_nil item.nonempty with ⟨first, tail, named⟩
    have letter := item.chars first (by rw [named]; exact List.mem_cons_self)
    have shape : renderStart (item :: items) spaces = List.replicate (item.spaces + 1) ' ' ++
        (first :: (tail ++ (item.sign ++ renderStart items spaces))) := by
      simp [renderStart_cons, Written.render, named]
    have stops : ∀ c ∈ (first :: (tail ++ (item.sign ++ renderStart items spaces))).head?,
        Text.isBlank c = false := by
      intro c head
      cases head
      exact letter.1
    rw [shape, Text.dropBlanks, dropWhile_stop (isBlank_spaces _) stops] at head
    cases head
    simp at letter

theorem startAttributesFrom_renderStart (items : List Written) (spaces : Nat) :
    startAttributesFrom (renderStart items spaces) = items.map Written.item := by
  induction items with
  | nil =>
    have none := startAttributesFrom_blanks (List.replicate spaces ' ') [] (isBlank_spaces spaces)
    rw [List.append_nil, startAttributesFrom_eq []] at none
    exact none
  | cons item items ih =>
    rw [renderStart_cons, List.map_cons]
    cases valued : item.value with
    | some value => rw [startAttributesFrom_valued item value valued, ih]
    | none =>
      have shape : item.render ++ renderStart items spaces =
          List.replicate (item.spaces + 1) ' ' ++ (item.name ++ renderStart items spaces) := by
        simp [Written.render, Written.sign, valued]
      have stops : ∀ c ∈ (renderStart items spaces).head?, isAttributeNameChar c = false := by
        intro c head
        rw [renderStart_head items spaces c head]
        decide
      rw [shape, startAttributesFrom_named (isBlank_spaces _) item.nonempty item.isNameChar stops,
        attributesBehind_bare _ _ (dropBlanks_renderStart items spaces), startAttributesFrom_dropBlanks, ih,
        Written.item, valued]
      rfl

/-! ### Slashes at the end -/

theorem startAttributes_append (front t : Text) (last : Char) (kept : last ≠ '/') :
    startAttributes (front ++ [last] ++ t) =
      startAttributesFrom (front ++ [last] ++ (t.reverse.dropWhile (· == '/')).reverse) := by
  have turned : (front ++ [last] ++ t).reverse = t.reverse ++ (last :: front.reverse) := by simp
  have dropped : (t.reverse ++ (last :: front.reverse)).dropWhile (· == '/') =
      t.reverse.dropWhile (· == '/') ++ (last :: front.reverse) := by
    induction t.reverse with
    | nil => simp [kept]
    | cons c t ih =>
      by_cases slash : c = '/'
      · simpa [slash] using ih
      · simp [slash]
  rw [startAttributes, turned, dropped]
  simp

theorem Written.render_last (item : Written) : ∃ front last, item.render = front ++ [last] ∧ last ≠ '/' := by
  cases valued : item.value with
  | none =>
    have split := List.dropLast_concat_getLast item.nonempty
    have letter := (item.chars _ (List.getLast_mem item.nonempty)).2
    refine ⟨List.replicate (item.spaces + 1) ' ' ++ item.name.dropLast, item.name.getLast item.nonempty, ?_, ?_⟩
    · rw [List.append_assoc, split, Written.render, Written.sign, valued, List.append_nil]
    · intro slash
      rw [slash] at letter
      exact letter (by decide)
  | some value =>
    refine ⟨List.replicate (item.spaces + 1) ' ' ++ (item.name ++ '=' :: value.quote :: value.text),
      value.quote, ?_, ?_⟩
    · simp [Written.render, Written.sign, valued, Quoted.render]
    · rcases value.isQuote with same | same <;> rw [same] <;> decide

theorem renderStart_last (items : List Written) (spaces : Nat) :
    renderStart items spaces = [] ∨ ∃ front last, renderStart items spaces = front ++ [last] ∧ last ≠ '/' := by
  induction items with
  | nil =>
    cases spaces with
    | zero => exact .inl rfl
    | succ spaces =>
      exact .inr ⟨List.replicate spaces ' ', ' ', List.replicate_succ', by decide⟩
  | cons item items ih =>
    rw [renderStart_cons]
    rcases ih with empty | ⟨front, last, split, kept⟩
    · rcases item.render_last with ⟨front, last, split, kept⟩
      exact .inr ⟨front, last, by rw [empty, List.append_nil, split], kept⟩
    · exact .inr ⟨item.render ++ front, last, by rw [split, List.append_assoc], kept⟩

theorem startAttributes_renderStart (items : List Written) (spaces : Nat) :
    startAttributes (renderStart items spaces) = items.map Written.item := by
  rw [← startAttributesFrom_renderStart items spaces]
  rcases renderStart_last items spaces with empty | ⟨front, last, split, kept⟩
  · rw [empty]
    rfl
  · have kept := startAttributes_append front [] last kept
    rw [List.append_nil] at kept
    rw [split, kept]
    simp

theorem startAttributes_valued (item : Written) (value : Quoted) (valued : item.value = some value)
    (inner : Text) : startAttributes (item.render ++ inner) = item.item :: startAttributes inner := by
  rcases item.render_last with ⟨front, last, split, kept⟩
  rw [split, startAttributes_append front inner last kept, ← split, startAttributesFrom_valued item value valued]
  rfl

/-! ### Which start tags are wanted -/

def Written.isNamed (name : Text) (item : Written) : Bool := Text.sameFolded item.name name

/-- Nothing marks the element as transformed, and the last `type` is the one asked for. -/
def Wanted (type : Text) (items : List Written) : Prop :=
  (∀ item ∈ items, item.isNamed transformedName = false) ∧
    ∃ before last after value, items = before ++ last :: after ∧ last.isNamed "type".toList = true ∧
      (∀ item ∈ after, item.isNamed "type".toList = false) ∧ last.value = some value ∧
      Text.sameFolded (Text.trim value.text) type = true

theorem getLast?_filter {α : Type} (p : α → Bool) (items : List α) (last : α) :
    (items.filter p).getLast? = some last ↔
      ∃ before after, items = before ++ last :: after ∧ p last = true ∧ ∀ item ∈ after, p item = false := by
  rw [List.getLast?_eq_head?_reverse, ← List.filter_reverse, List.head?_filter,
    List.find?_eq_some_iff_append]
  constructor
  · intro found
    rcases found with ⟨fits, after, before, split, none⟩
    refine ⟨before.reverse, after.reverse, ?_, fits, ?_⟩
    · have turned := congrArg List.reverse split
      simpa using turned
    · intro item member
      simpa using none item (List.mem_reverse.mp member)
  · intro found
    rcases found with ⟨before, after, rfl, fits, none⟩
    refine ⟨fits, after.reverse, before.reverse, by simp, ?_⟩
    intro item member
    simpa using none item (List.mem_reverse.mp member)

theorem hasType_items (type : Text) (items : List Written) :
    hasType type (items.map Written.item) = true ↔
      ∃ before last after value, items = before ++ last :: after ∧ last.isNamed "type".toList = true ∧
        (∀ item ∈ after, item.isNamed "type".toList = false) ∧ last.value = some value ∧
        Text.sameFolded (Text.trim value.text) type = true := by
  have last_eq : ((items.map Written.item).filter fun item => Text.sameFolded item.1 "type".toList).getLast? =
      (items.filter (Written.isNamed "type".toList)).getLast?.map Written.item := by
    rw [List.filter_map, List.getLast?_map]
    rfl
  rw [hasType, last_eq]
  constructor
  · intro asked
    cases found : (items.filter (Written.isNamed "type".toList)).getLast? with
    | none =>
      rw [found] at asked
      cases asked
    | some last =>
      rcases (getLast?_filter _ items last).mp found with ⟨before, after, split, fits, none⟩
      rw [found, Option.map_some, Written.item] at asked
      cases valued : last.value with
      | none =>
        rw [valued] at asked
        cases asked
      | some value =>
        rw [valued] at asked
        exact ⟨before, last, after, value, split, fits, none, valued, asked⟩
  · intro shape
    rcases shape with ⟨before, last, after, value, split, fits, none, valued, same⟩
    have found := (getLast?_filter _ items last).mpr ⟨before, after, split, fits, none⟩
    rw [found, Option.map_some, Written.item, valued]
    exact same

instance (type : Text) (items : List Written) : Decidable (Wanted type items) :=
  decidable_of_iff ((∀ item ∈ items, item.isNamed transformedName = false) ∧
    hasType type (items.map Written.item) = true) (by rw [hasType_items, Wanted])

theorem isWanted_renderStart (type : Text) (items : List Written) (spaces : Nat) (element : Element)
    (inner : element.inner = renderStart items spaces) :
    isWanted type element = true ↔ Wanted type items := by
  have unmarked : (!(items.map Written.item).any fun item => Text.sameFolded item.1 transformedName) = true ↔
      ∀ item ∈ items, item.isNamed transformedName = false := by
    simp only [Bool.not_eq_true', List.any_eq_false, List.forall_mem_map, Bool.not_eq_true]
    rfl
  rw [isWanted, inner, startAttributes_renderStart, Bool.and_eq_true, unmarked, hasType_items, Wanted]

end TagCalls.Page
