import TagCalls.Proofs.Attribute
import TagCalls.Proofs.Tag.Reading

/-!
The three patterns at a tag as it is written, and at other texts. A tag whose raw attributes hold no `>`
is read back by the pattern of its kind and by no pattern that comes before. Its call holds no `<`,
so that no later pattern reads inside a call.
-/
namespace TagCalls.Tag

open Text (IsName NameStops)

/-! ### Brackets -/

theorem readBracketed?_elsewhere (c : Char) (t : Text) (other : c ≠ '<') :
    readBracketed? (c :: t) = none := by
  simp [readBracketed?, Text.dropLiteral?, Ne.symm other]

theorem readBracketed?_written (name raw rest : Text) (named : IsName name) (stops : NameStops raw)
    (absent : '>' ∉ raw) :
    readBracketed? ('<' :: (name ++ raw ++ '>' :: rest)) = some (name, raw, rest) := by
  have opened : Text.dropLiteral? ['<'] ('<' :: (name ++ raw ++ '>' :: rest)) =
      some (name ++ raw ++ '>' :: rest) := Text.dropLiteral?_append ['<'] _
  have inside : '>' ∉ name ++ raw := by
    rw [List.mem_append]
    intro member
    rcases member with member | member
    · exact Text.not_mem_of_isName named (by decide) member
    · exact absent member
  simp only [readBracketed?, opened, Option.bind_eq_bind, Option.bind_some,
    Text.splitFirst?_append inside, Text.takeName?_append named stops]
  rfl

theorem readBracketed?_eq_none (t : Text) (bare : NameStops t ∨ '>' ∉ t) :
    readBracketed? ('<' :: t) = none := by
  have opened : Text.dropLiteral? ['<'] ('<' :: t) = some t := Text.dropLiteral?_append ['<'] t
  cases found : Text.splitFirst? '>' t with
  | none => simp only [readBracketed?, opened, found, Option.bind_eq_bind, Option.bind_some, Option.bind_none]
  | some parts =>
    rcases parts with ⟨body, rest⟩
    rcases bare with stops | absent
    · rcases Text.splitFirst?_eq_some found with ⟨rfl, _⟩
      simp only [readBracketed?, opened, found, Option.bind_eq_bind, Option.bind_some,
        Text.takeName?_eq_none (nameStops_left stops), Option.bind_none]
    · rw [Text.splitFirst?_eq_none absent] at found
      cases found

theorem selfClosing_read_none (t : Text) (silent : readBracketed? t = none) : selfClosing.read? t = none := by
  simp only [selfClosing, readSelfClosing?, silent, Option.bind_eq_bind, Option.bind_none]

theorem opening_read_none (t : Text) (silent : readBracketed? t = none) : opening.read? t = none := by
  simp only [opening, readOpening?, silent, Option.bind_eq_bind, Option.bind_none]

theorem closing_read_elsewhere (c : Char) (t : Text) (other : c ≠ '<') : closing.read? (c :: t) = none := by
  simp [closing, readClosing?, Text.dropLiteral?, Ne.symm other]

/-! ### Tags as they are written -/

section

variable (tag : Tag) (rest : Text) (formed : tag.WellFormed) (absent : '>' ∉ tag.raw)

include formed absent

theorem selfClosing_read_render (kind : tag.kind = .selfClosing) :
    selfClosing.read? (tag.render ++ rest) = some (tag, rest) := by
  rcases tag with ⟨_, name, raw⟩
  cases kind
  have stops : NameStops (raw ++ ['/']) := by
    cases raw with
    | nil => exact Text.nameStops_cons.mpr (by decide)
    | cons c raw => exact Text.nameStops_cons.mpr (Text.nameStops_cons.mp formed.stops)
  have inside : '>' ∉ raw ++ ['/'] := by simpa using absent
  have found := readBracketed?_written name (raw ++ ['/']) rest formed.named stops inside
  have shape : render ⟨.selfClosing, name, raw⟩ ++ rest =
      '<' :: (name ++ (raw ++ ['/']) ++ '>' :: rest) := by simp [render]
  rw [shape]
  simp only [selfClosing, readSelfClosing?, found, Option.bind_eq_bind, Option.bind_some,
    dropSlash?_eq_some_iff.mpr rfl]
  rfl

theorem readBracketed?_opening (kind : tag.kind = .opening) :
    readBracketed? (tag.render ++ rest) = some (tag.name, tag.raw, rest) := by
  rcases tag with ⟨_, name, raw⟩
  cases kind
  have shape : render ⟨.opening, name, raw⟩ ++ rest = '<' :: (name ++ raw ++ '>' :: rest) := by
    simp [render]
  rw [shape]
  exact readBracketed?_written name raw rest formed.named formed.stops absent

theorem selfClosing_read_opening (kind : tag.kind = .opening) :
    selfClosing.read? (tag.render ++ rest) = none := by
  simp only [selfClosing, readSelfClosing?, readBracketed?_opening tag rest formed absent kind,
    Option.bind_eq_bind, Option.bind_some, dropSlash?_eq_none (formed.opening kind), Option.bind_none]

theorem opening_read_render (kind : tag.kind = .opening) :
    opening.read? (tag.render ++ rest) = some (tag, rest) := by
  simp only [opening, readOpening?, readBracketed?_opening tag rest formed absent kind,
    Option.bind_eq_bind, Option.bind_some]
  rcases tag with ⟨_, name, raw⟩
  cases kind
  rfl

end

theorem readBracketed?_closing (tag : Tag) (rest : Text) (kind : tag.kind = .closing) :
    readBracketed? (tag.render ++ rest) = none := by
  rcases tag with ⟨_, name, raw⟩
  cases kind
  exact readBracketed?_eq_none _ (.inl (Text.nameStops_cons.mpr (by decide)))

theorem closing_read_render (tag : Tag) (rest : Text) (formed : tag.WellFormed) (kind : tag.kind = .closing) :
    closing.read? (tag.render ++ rest) = some (tag, rest) := by
  have raw := formed.closing kind
  rcases tag with ⟨_, name, _⟩
  cases kind
  cases raw
  have shape : render ⟨.closing, name, []⟩ ++ rest = '<' :: '/' :: (name ++ '>' :: rest) := by
    simp [render]
  rw [shape]
  exact readClosing?_written formed.named rest

theorem render_eq_cons (tag : Tag) (formed : tag.WellFormed) (absent : '<' ∉ tag.raw) :
    ∃ tail, tag.render = '<' :: tail ∧ '<' ∉ tail := by
  have name := Text.not_mem_of_isName (c := '<') formed.named (by decide)
  rcases tag with ⟨_ | _ | _, text, raw⟩
  · exact ⟨text ++ raw ++ "/>".toList, rfl, by simp_all⟩
  · exact ⟨text ++ raw ++ ">".toList, rfl, by simp_all⟩
  · exact ⟨'/' :: (text ++ ">".toList), by simp [render], by simp_all⟩

theorem render_head (tag : Tag) : ∃ tail, tag.render = '<' :: tail := by
  rcases tag with ⟨_ | _ | _, name, raw⟩ <;> exact ⟨_, rfl⟩

theorem nameStops_render (tag : Tag) (rest : Text) : NameStops (tag.render ++ rest) := by
  rcases render_head tag with ⟨tail, shape⟩
  rw [shape]
  exact Text.nameStops_cons.mpr (by decide)

theorem end_mem_render (tag : Tag) : '>' ∈ tag.render := by
  rcases tag with ⟨_ | _ | _, name, raw⟩ <;> simp [render]

/-! ### Calls -/

theorem call_eq_target (target : Text) (tag : Tag) (kind : tag.kind ≠ .closing) :
    ∃ tail, tag.call target = target ++ '(' :: tail := by
  rcases tag with ⟨_ | _ | _, name, raw⟩
  · exact ⟨_, by simp only [call, callHead, List.append_assoc]; rfl⟩
  · exact ⟨_, by simp only [call, callHead, List.append_assoc]; rfl⟩
  · exact absurd rfl kind

def callSigns : Text := "(', )".toList ++ Attribute.signs

theorem not_mem_call (c : Char) (foreign : c ∉ callSigns) (other : Text.isNameChar c = false) (target : Text)
    (tag : Tag) (named : IsName tag.name) (noTarget : c ∉ target) (absent : c ∉ tag.raw) :
    c ∉ tag.call target := by
  rcases not_or.mp (fun h => foreign (List.mem_append.mpr h)) with ⟨noSign, noLiteral⟩
  have name := Text.not_mem_of_isName named other
  have object := Attribute.not_mem_literal_parse tag.raw c noLiteral absent
  rcases tag with ⟨_ | _ | _, text, raw⟩ <;> simp_all [call, callHead]

end TagCalls.Tag
