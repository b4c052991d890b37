import TagCalls.Proofs.Attribute.Spelling

/-!
What an attribute is made of: key and value are parts of the text in which it is read. So the object
literal of a tag's attributes has no character that neither the tag has nor the literal's own signs.
-/
namespace TagCalls.Attribute

theorem Value.source_subset {word : Text} {value : Value} (spelled : Value.Spells word value) :
    value.source ⊆ word := by
  cases spelled with
  | literal _ _ _ => exact List.Subset.refl _
  | expression _ =>
    intro c member
    exact List.mem_cons_of_mem _ (List.mem_append_left _ member)

theorem parts_subset {word : Text} {item : Attribute} (spelled : Spells word item) :
    item.key ⊆ word ∧ item.value.source ⊆ word := by
  cases spelled with
  | item _ _ _ written =>
    have value := Value.source_subset written
    constructor
    · intro c member
      exact List.mem_append_left _ (List.mem_append_left _ member)
    · intro c member
      exact List.mem_append_right _ (List.mem_cons_of_mem _ (List.mem_append_right _ (value member)))

theorem parse_parts (raw : Text) (item : Attribute) (member : item ∈ parse raw) :
    item.key ⊆ raw ∧ item.value.source ⊆ raw := by
  rcases exact_pattern.spelled_of_mem member with ⟨word, inside, spelled⟩
  rcases parts_subset spelled with ⟨key, value⟩
  exact ⟨List.Subset.trans key inside.subset, List.Subset.trans value inside.subset⟩

/-! ### The object literal -/

theorem mem_intercalate (separator : Text) (parts : List Text) (c : Char)
    (member : c ∈ separator.intercalate parts) : c ∈ separator ∨ ∃ part ∈ parts, c ∈ part := by
  induction parts with
  | nil => cases member
  | cons part parts ih =>
    cases parts with
    | nil => exact .inr ⟨part, by simp, by simpa using member⟩
    | cons next parts =>
      rw [List.intercalate_cons_cons, List.mem_append, List.mem_append] at member
      rcases member with (here | between) | later
      · exact .inr ⟨part, by simp, here⟩
      · exact .inl between
      · rcases ih later with between | ⟨part, listed, inside⟩
        · exact .inl between
        · exact .inr ⟨part, List.mem_cons_of_mem _ listed, inside⟩

/-- The signs that are written around keys and values, or when there are none. -/
def signs : Text := "null\x7b\x7d:, ".toList

theorem mem_entry (item : Attribute) (c : Char) (member : c ∈ item.entry) :
    c ∈ signs ∨ c ∈ item.key ∨ c ∈ item.value.source := by
  simp only [entry, List.mem_append] at member
  rcases member with (key | sign) | value
  · exact .inr (.inl key)
  · exact .inl (by simp at sign; rcases sign with rfl | rfl <;> decide)
  · exact .inr (.inr value)

theorem mem_literal (items : List Attribute) (c : Char) (member : c ∈ literal items) :
    c ∈ signs ∨ ∃ item ∈ items, c ∈ item.key ∨ c ∈ item.value.source := by
  cases items with
  | nil => exact .inl (List.mem_append_left "\x7b\x7d:, ".toList member)
  | cons item items =>
    simp only [literal, List.mem_cons, List.mem_append, List.not_mem_nil, or_false] at member
    rcases member with rfl | inside | rfl
    · exact .inl (by decide)
    · rcases mem_intercalate _ _ c inside with comma | ⟨part, listed, written⟩
      · exact .inl (by simp at comma; subst comma; decide)
      · rcases List.mem_map.mp listed with ⟨item, present, rfl⟩
        exact (mem_entry item c written).imp_right fun own => ⟨item, present, own⟩
    · exact .inl (by decide)

theorem not_mem_literal_parse (raw : Text) (c : Char) (sign : c ∉ signs)
    (absent : c ∉ raw) : c ∉ literal (parse raw) := by
  intro member
  rcases mem_literal _ c member with written | ⟨item, parsed, inside⟩
  · exact sign written
  · rcases parse_parts raw item parsed with ⟨key, value⟩
    rcases inside with inside | inside
    · exact absent (key inside)
    · exact absent (value inside)

end TagCalls.Attribute
