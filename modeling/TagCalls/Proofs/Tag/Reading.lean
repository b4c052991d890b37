import TagCalls.Proofs.Tag.Body
import TagCalls.Proofs.Text.Lexeme

/-!
What stands at the head of a text, by the grammar of tags, and that `read` finds exactly that. Main
statements: `read_eq_iff` for one place, and the lemmas on `find` for the first place at which
something stands.
-/
namespace TagCalls.Tag

open Text (IsName NameStops)

/-- By the grammar: a closing tag, a tag whose inside goes on to its `>`, or one that is stuck. -/
inductive Stands : Text → Reading → Prop
  | closing {name rest : Text} : IsName name →
      Stands ('<' :: '/' :: (name ++ '>' :: rest)) (.tagged ⟨.closing, name, []⟩ rest)
  | selfClosing {name behind raw rest : Text} : IsName name → NameStops behind →
      GoesOn behind (.closed (raw ++ ['/']) rest) →
      Stands ('<' :: (name ++ behind)) (.tagged ⟨.selfClosing, name, raw⟩ rest)
  | opening {name behind raw rest : Text} : IsName name → NameStops behind →
      GoesOn behind (.closed raw rest) → raw.getLast? ≠ some '/' →
      Stands ('<' :: (name ++ behind)) (.tagged ⟨.opening, name, raw⟩ rest)
  | stuck {name behind : Text} : IsName name → NameStops behind → GoesOn behind .stuck →
      Stands ('<' :: (name ++ behind)) (.stuck name)

/-! ### Reading one place -/

theorem dropSlash?_eq_some_iff {raw inner : Text} :
    dropSlash? raw = some inner ↔ raw = inner ++ ['/'] := by
  unfold dropSlash?
  constructor
  · intro dropped
    split at dropped
    · next last =>
      cases dropped
      rcases List.getLast?_eq_some_iff.mp last with ⟨front, rfl⟩
      simp
    · cases dropped
  · intro same
    subst same
    simp

theorem dropSlash?_eq_none {raw : Text} (noSlash : raw.getLast? ≠ some '/') : dropSlash? raw = none :=
  if_neg noSlash

theorem ofRaw_slash (name raw : Text) : ofRaw name (raw ++ ['/']) = ⟨.selfClosing, name, raw⟩ := by
  rw [ofRaw, dropSlash?_eq_some_iff.mpr rfl]

theorem ofRaw_noSlash (name : Text) {raw : Text} (noSlash : raw.getLast? ≠ some '/') :
    ofRaw name raw = ⟨.opening, name, raw⟩ := by
  rw [ofRaw, dropSlash?_eq_none noSlash]

theorem nameStops_end (rest : Text) : NameStops ('>' :: rest) :=
  Text.nameStops_cons.mpr (by decide)

theorem readClosing?_written {name : Text} (named : IsName name) (rest : Text) :
    readClosing? ('<' :: '/' :: (name ++ '>' :: rest)) = some (⟨.closing, name, []⟩, rest) := by
  have inside : Text.dropLiteral? "</".toList ('<' :: '/' :: (name ++ '>' :: rest)) =
      some (name ++ '>' :: rest) := Text.dropLiteral?_append "</".toList _
  have finish : Text.dropLiteral? ['>'] ('>' :: rest) = some rest := Text.dropLiteral?_append ['>'] rest
  simp only [readClosing?, inside, Option.bind_eq_bind, Option.bind_some,
    Text.takeName?_append named (nameStops_end rest), finish]
  rfl

theorem readClosing?_eq_some_iff {t rest : Text} {tag : Tag} :
    readClosing? t = some (tag, rest) ↔ ∃ name, IsName name ∧ tag = ⟨.closing, name, []⟩ ∧
      t = '<' :: '/' :: (name ++ '>' :: rest) := by
  constructor
  · intro found
    simp only [readClosing?, Option.bind_eq_bind, Option.bind_eq_some_iff, Prod.exists, Option.pure_def,
      Option.some.injEq, Prod.mk.injEq] at found
    rcases found with ⟨inside, opened, name, behind, taken, _, finish, rfl, rfl⟩
    rcases Text.takeName?_eq_some_iff.mp taken with ⟨rfl, named, _⟩
    rw [Text.dropLiteral?_eq_some finish] at opened
    exact ⟨name, named, rfl, Text.dropLiteral?_eq_some opened⟩
  · intro written
    rcases written with ⟨name, named, rfl, rfl⟩
    exact readClosing?_written named rest

theorem readClosing?_name {name : Text} (named : IsName name) (behind : Text) :
    readClosing? ('<' :: (name ++ behind)) = none := by
  rcases named.head with ⟨c, tail, rfl, letter⟩
  have noSlash : c ≠ '/' := by
    intro same
    subst same
    cases letter
  simp [readClosing?, Text.dropLiteral?, Ne.symm noSlash]

def Body.reading (name : Text) : Body → Reading
  | .closed raw rest => .tagged (ofRaw name raw) rest
  | .unended => .plain
  | .stuck => .stuck name

theorem read_named {name behind : Text} (named : IsName name) (stops : NameStops behind) :
    read ('<' :: (name ++ behind)) = (body .between behind).reading name := by
  simp only [read, if_true, readClosing?_name named, readNamed, Text.takeName?_append named stops]
  rfl

theorem read_of_stands {t : Text} {reading : Reading} (stands : Stands t reading) : read t = reading := by
  cases stands with
  | closing named => simp only [read, if_true, readClosing?_written named]
  | selfClosing named stops goesOn =>
    rw [read_named named stops, body_of_goesOn goesOn, Body.reading, ofRaw_slash]
  | opening named stops goesOn noSlash =>
    rw [read_named named stops, body_of_goesOn goesOn, Body.reading, ofRaw_noSlash _ noSlash]
  | stuck named stops goesOn => rw [read_named named stops, body_of_goesOn goesOn, Body.reading]

theorem stands_closed {name behind raw rest : Text} (named : IsName name) (stops : NameStops behind)
    (goesOn : GoesOn behind (.closed raw rest)) :
    Stands ('<' :: (name ++ behind)) (.tagged (ofRaw name raw) rest) := by
  by_cases slash : raw.getLast? = some '/'
  · rcases List.getLast?_eq_some_iff.mp slash with ⟨inner, rfl⟩
    rw [ofRaw_slash]
    exact .selfClosing named stops goesOn
  · rw [ofRaw_noSlash name slash]
    exact .opening named stops goesOn slash

theorem read_cases (t : Text) : Stands t (read t) ∨ read t = .plain := by
  cases t with
  | nil => exact .inr rfl
  | cons c t =>
    by_cases opens : c = '<'
    · subst opens
      cases closing : readClosing? ('<' :: t) with
      | some found =>
        rcases found with ⟨tag, rest⟩
        rcases readClosing?_eq_some_iff.mp closing with ⟨name, named, rfl, same⟩
        rw [same, read_of_stands (.closing named)]
        exact .inl (.closing named)
      | none =>
        cases taken : Text.takeName? t with
        | none => exact .inr (by simp only [read, if_true, closing, readNamed, taken])
        | some parts =>
          rcases parts with ⟨name, behind⟩
          rcases Text.takeName?_eq_some_iff.mp taken with ⟨rfl, named, stops⟩
          rw [read_named named stops]
          cases scanned : body .between behind with
          | closed raw rest => exact .inl (stands_closed named stops (body_eq_iff.mp scanned))
          | unended => exact .inr rfl
          | stuck => exact .inl (.stuck named stops (body_eq_iff.mp scanned))
    · exact .inr (by simp only [read, if_neg opens])

theorem stands_ne_nil {t : Text} {reading : Reading} (stands : Stands t reading) : t ≠ [] := by
  cases stands <;> simp

theorem not_stands_plain (t : Text) : ¬ Stands t .plain := by
  intro stands
  cases stands

theorem read_eq_iff {t : Text} {reading : Reading} :
    Stands t reading ↔ read t = reading ∧ reading ≠ .plain := by
  constructor
  · intro stands
    refine ⟨read_of_stands stands, ?_⟩
    intro same
    subst same
    exact not_stands_plain t stands
  · intro reads
    rcases reads with ⟨rfl, found⟩
    exact (read_cases t).resolve_right found

/-! ### The tag that is read -/

/-- What holds of every tag that is read; `raw` may hold any characters between these ends. -/
structure WellFormed (tag : Tag) : Prop where
  named : IsName tag.name
  stops : NameStops tag.raw
  opening : tag.kind = .opening → tag.raw.getLast? ≠ some '/'
  closing : tag.kind = .closing → tag.raw = []

theorem nameStops_left {front back : Text} (stops : NameStops (front ++ back)) : NameStops front := by
  cases front with
  | nil => exact Text.nameStops_nil
  | cons c front => exact Text.nameStops_cons.mpr (Text.nameStops_cons.mp stops)

theorem eq_of_goesOn_closed {behind raw rest : Text} (goesOn : GoesOn behind (.closed raw rest)) :
    behind = raw ++ '>' :: rest := by
  cases goesOn
  rfl

theorem render_of_stands {t rest : Text} {tag : Tag} (stands : Stands t (.tagged tag rest)) :
    t = tag.render ++ rest ∧ tag.WellFormed := by
  cases stands with
  | closing named =>
    exact ⟨by simp [render], named, Text.nameStops_nil, (fun h => by cases h), fun _ => rfl⟩
  | selfClosing named stops goesOn =>
    obtain rfl := eq_of_goesOn_closed goesOn
    rw [List.append_assoc] at stops
    exact ⟨by simp [render], named, nameStops_left stops, (fun h => by cases h), fun h => by cases h⟩
  | opening named stops goesOn noSlash =>
    obtain rfl := eq_of_goesOn_closed goesOn
    exact ⟨by simp [render], named, nameStops_left stops, fun _ => noSlash, fun h => by cases h⟩

theorem render_of_read {t rest : Text} {tag : Tag} (found : read t = .tagged tag rest) :
    t = tag.render ++ rest ∧ tag.WellFormed :=
  render_of_stands (read_eq_iff.mpr ⟨found, by simp⟩)

theorem render_ne_nil (tag : Tag) : tag.render ≠ [] := by
  rcases tag with ⟨_ | _ | _, name, raw⟩ <;> simp [render]

/-! ### The first place -/

/-- Nothing is read at any character of `gap` when `head` follows it. -/
def Silent (gap head : Text) : Prop := ∀ back, back <:+ gap → back ≠ [] → read (back ++ head) = .plain

theorem silent_nil (head : Text) : Silent [] head := by
  intro back shorter nonempty
  exact absurd (List.suffix_nil.mp shorter) nonempty

theorem silent_cons {c : Char} {gap head : Text} :
    Silent (c :: gap) head ↔ read (c :: (gap ++ head)) = .plain ∧ Silent gap head := by
  constructor
  · intro silent
    refine ⟨silent (c :: gap) (List.suffix_refl _) (by simp), ?_⟩
    intro back shorter nonempty
    exact silent back (shorter.trans (List.suffix_cons c gap)) nonempty
  · intro both back shorter nonempty
    rcases both with ⟨plain, silent⟩
    rcases List.suffix_cons_iff.mp shorter with rfl | shorter
    · exact plain
    · exact silent back shorter nonempty

/-- What is found in a text: the first thing that stands in it, behind a gap in which nothing does. -/
inductive Finds : Text → Found → Prop
  | tagged {gap head rest : Text} {tag : Tag} : Silent gap head → Stands head (.tagged tag rest) →
      Finds (gap ++ head) (.tagged gap tag rest)
  | stuck {gap head name : Text} : Silent gap head → Stands head (.stuck name) →
      Finds (gap ++ head) (.stuck gap name)
  | none {t : Text} : Silent t [] → Finds t .none

theorem finds_push {c : Char} {t : Text} {found : Found} (plain : read (c :: t) = .plain)
    (finds : Finds t found) : Finds (c :: t) (found.push c) := by
  cases finds with
  | @tagged gap _ _ _ silent stands =>
    exact @Finds.tagged (c :: gap) _ _ _ (silent_cons.mpr ⟨plain, silent⟩) stands
  | @stuck gap _ _ silent stands =>
    exact @Finds.stuck (c :: gap) _ _ (silent_cons.mpr ⟨plain, silent⟩) stands
  | none silent => exact .none (silent_cons.mpr ⟨by rwa [List.append_nil], silent⟩)

theorem finds_find (t : Text) : Finds t (find t) := by
  induction t with
  | nil => exact .none (silent_nil [])
  | cons c t ih =>
    rw [find]
    cases found : read (c :: t) with
    | tagged tag rest => exact @Finds.tagged [] _ _ _ (silent_nil _) (read_eq_iff.mpr ⟨found, by simp⟩)
    | stuck name => exact @Finds.stuck [] _ _ (silent_nil _) (read_eq_iff.mpr ⟨found, by simp⟩)
    | plain => exact finds_push found ih

end TagCalls.Tag
