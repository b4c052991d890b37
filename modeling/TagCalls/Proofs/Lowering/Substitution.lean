import TagCalls.Lowering.Passes
import TagCalls.Proofs.Tag.Pattern
import TagCalls.Proofs.Text.Leftmost

/-!
The passes as leftmost substitutions. Each pass has a language of tags, said without regard to how a tag is
read, and its pattern reads exactly the tags of this language. Main statement:
`pass_substitutes_leftmost`.
-/
namespace TagCalls.Tag

open Text (IsName NameStops)

/-- The texts that the pattern of a kind stands for. What of a tag is its name is left open. -/
inductive Form : Kind → Text → Prop
  | selfClosing {name raw : Text} : IsName name → '>' ∉ raw →
      Form .selfClosing ('<' :: (name ++ raw ++ "/>".toList))
  | opening {name raw : Text} : IsName name → '>' ∉ raw →
      Form .opening ('<' :: (name ++ raw ++ ">".toList))
  | closing {name : Text} : IsName name → Form .closing ("</".toList ++ name ++ ">".toList)

/-- The tag that such a text is read as: its name goes as far as it can, and the rest of its inside is raw. -/
inductive Reads : Text → Tag → Prop
  | selfClosing {name raw : Text} : IsName name → NameStops raw → '>' ∉ raw →
      Reads ('<' :: (name ++ raw ++ "/>".toList)) ⟨.selfClosing, name, raw⟩
  | opening {name raw : Text} : IsName name → NameStops raw → '>' ∉ raw →
      Reads ('<' :: (name ++ raw ++ ">".toList)) ⟨.opening, name, raw⟩
  | closing {name : Text} : IsName name →
      Reads ("</".toList ++ name ++ ">".toList) ⟨.closing, name, []⟩

def patternOf : Kind → Pattern Tag
  | .selfClosing => selfClosing
  | .opening => opening
  | .closing => closing

/-! ### No tag begins another one -/

theorem form_end {kind : Kind} {word : Text} (form : Form kind word) :
    ∃ front, word = front ++ ['>'] ∧ '>' ∉ front := by
  cases form with
  | @selfClosing name raw named absent =>
    have inName := Text.not_mem_of_isName (c := '>') named (by decide)
    exact ⟨'<' :: (name ++ raw ++ ['/']), by simp, by simp [inName, absent]⟩
  | @opening name raw named absent =>
    have inName := Text.not_mem_of_isName (c := '>') named (by decide)
    exact ⟨'<' :: (name ++ raw), by simp, by simp [inName, absent]⟩
  | @closing name named =>
    have inName := Text.not_mem_of_isName (c := '>') named (by decide)
    exact ⟨'<' :: '/' :: name, by simp, by simp [inName]⟩

theorem prefixFree_form (kind : Kind) : PrefixFree (Form kind) where
  nonempty word form := by
    rcases form_end form with ⟨front, rfl, _⟩
    simp
  alone word other one two begins := by
    rcases form_end one with ⟨front, rfl, absent⟩
    rcases form_end two with ⟨whole, rfl, none⟩
    rcases begins with ⟨rest, same⟩
    -- Both end at their first `>`, which is the first `>` of the longer text.
    have first := Text.splitFirst?_append absent rest
    have second := Text.splitFirst?_append none []
    rw [← List.singleton_append, ← List.append_assoc, same, second] at first
    cases first
    rfl

/-! ### Every tag is read in one way -/

theorem longest_name {name : Text} (named : IsName name) (raw : Text) :
    ∃ longest behind, name ++ raw = longest ++ behind ∧ IsName longest ∧ NameStops behind := by
  rcases named.head with ⟨c, tail, rfl, letter⟩
  refine ⟨(c :: tail ++ raw).takeWhile Text.isNameChar, (c :: tail ++ raw).dropWhile Text.isNameChar,
    List.takeWhile_append_dropWhile.symm, ⟨?_, ?_⟩, Text.nameStops_dropWhile _⟩
  · simp [letter]
  · exact List.all_eq_true.mp List.all_takeWhile

theorem not_mem_behind {name raw longest behind : Text} (named : IsName name) (absent : '>' ∉ raw)
    (same : name ++ raw = longest ++ behind) : '>' ∉ behind := by
  intro member
  have inside : '>' ∈ name ++ raw := same ▸ List.mem_append_right longest member
  rcases List.mem_append.mp inside with inName | inRaw
  · exact Text.not_mem_of_isName named (by decide) inName
  · exact absent inRaw

theorem reads_of_form {kind : Kind} {word : Text} (form : Form kind word) :
    ∃ tag, tag.kind = kind ∧ Reads word tag := by
  cases form with
  | selfClosing named absent =>
    rcases longest_name named _ with ⟨longest, behind, same, goesOn, stops⟩
    rw [same]
    exact ⟨_, rfl, .selfClosing goesOn stops (not_mem_behind named absent same)⟩
  | opening named absent =>
    rcases longest_name named _ with ⟨longest, behind, same, goesOn, stops⟩
    rw [same]
    exact ⟨_, rfl, .opening goesOn stops (not_mem_behind named absent same)⟩
  | closing named => exact ⟨_, rfl, .closing named⟩

theorem form_of_reads {word : Text} {tag : Tag} (reads : Reads word tag) : Form tag.kind word := by
  cases reads with
  | selfClosing named _ absent => exact .selfClosing named absent
  | opening named _ absent => exact .opening named absent
  | closing named => exact .closing named

/-! ### The patterns and their languages -/

theorem readBracketed?_eq_some_iff {t name raw rest : Text} :
    readBracketed? t = some (name, raw, rest) ↔
      t = '<' :: (name ++ raw ++ '>' :: rest) ∧ IsName name ∧ NameStops raw ∧ '>' ∉ raw := by
  constructor
  · intro found
    have parts := readBracketed?_eq_some found
    simp only [readBracketed?, Option.bind_eq_bind, Option.bind_eq_some_iff, Prod.exists, Option.pure_def,
      Option.some.injEq, Prod.mk.injEq] at found
    rcases found with ⟨_, _, _, _, _, _, _, taken, rfl, rfl, rfl⟩
    rcases Text.takeName?_eq_some_iff.mp taken with ⟨_, named, stops⟩
    exact ⟨parts.1, named, stops, parts.2.2⟩
  · intro written
    rcases written with ⟨rfl, named, stops, absent⟩
    exact readBracketed?_written name raw rest named stops absent

theorem read?_of_reads {word : Text} {tag : Tag} (reads : Reads word tag) (rest : Text) :
    (patternOf tag.kind).read? (word ++ rest) = some (tag, rest) := by
  cases reads with
  | @selfClosing name raw named stops absent =>
    have formed : WellFormed ⟨.selfClosing, name, raw⟩ :=
      ⟨named, stops, (fun other => by cases other), fun other => by cases other⟩
    exact selfClosing_read_render ⟨.selfClosing, name, raw⟩ rest formed absent rfl
  | @opening name raw named stops absent =>
    have shape : '<' :: (name ++ raw ++ ">".toList) ++ rest = '<' :: (name ++ raw ++ '>' :: rest) := by simp
    have found := readBracketed?_written name raw rest named stops absent
    rw [shape]
    simp only [patternOf, opening, readOpening?, found, Option.bind_eq_bind, Option.bind_some, Option.pure_def]
  | @closing name named =>
    have formed : WellFormed ⟨.closing, name, []⟩ :=
      ⟨named, Text.nameStops_nil, (fun other => by cases other), fun _ => rfl⟩
    exact closing_read_render ⟨.closing, name, []⟩ rest formed rfl

theorem reads_of_read? {kind : Kind} {t rest : Text} {tag : Tag}
    (found : (patternOf kind).read? t = some (tag, rest)) :
    ∃ word, t = word ++ rest ∧ tag.kind = kind ∧ Reads word tag := by
  cases kind with
  | selfClosing =>
    simp only [patternOf, selfClosing, readSelfClosing?, Option.bind_eq_bind, Option.bind_eq_some_iff,
      Prod.exists, Option.pure_def, Option.some.injEq, Prod.mk.injEq] at found
    rcases found with ⟨name, behind, _, bracketed, raw, slash, rfl, rfl⟩
    rcases readBracketed?_eq_some_iff.mp bracketed with ⟨rfl, named, stops, absent⟩
    obtain rfl := dropSlash?_eq_some_iff.mp slash
    have inner : '>' ∉ raw := fun member => absent (List.mem_append_left _ member)
    exact ⟨_, by simp, rfl, .selfClosing named (nameStops_left stops) inner⟩
  | opening =>
    simp only [patternOf, opening, readOpening?, Option.bind_eq_bind, Option.bind_eq_some_iff, Prod.exists,
      Option.pure_def, Option.some.injEq, Prod.mk.injEq] at found
    rcases found with ⟨name, raw, _, bracketed, rfl, rfl⟩
    rcases readBracketed?_eq_some_iff.mp bracketed with ⟨rfl, named, stops, absent⟩
    exact ⟨_, by simp, rfl, .opening named stops absent⟩
  | closing =>
    rcases readClosing?_eq_some_iff.mp found with ⟨name, named, rfl, rfl⟩
    exact ⟨_, by simp, rfl, .closing named⟩

theorem recognizes_form (kind : Kind) :
    (patternOf kind).Recognizes (Form kind) fun word tag => tag.kind = kind ∧ Reads word tag where
  sound t tag rest found := by
    rcases reads_of_read? found with ⟨word, split, same, reads⟩
    exact ⟨word, split, same ▸ form_of_reads reads, same, reads⟩
  complete word rest form := by
    rcases reads_of_form form with ⟨tag, rfl, reads⟩
    rw [read?_of_reads reads rest]
    exact Option.some_ne_none _

end TagCalls.Tag

namespace TagCalls.Lowering

def pass (target : Text) : Tag.Kind → Text → Text
  | .selfClosing => selfClosingPass target
  | .opening => openingPass target
  | .closing => closingPass

inductive Lowers (target : Text) : Tag.Kind → Text → Text → Prop
  | selfClosing {word name raw : Text} : Tag.Reads word ⟨.selfClosing, name, raw⟩ →
      Lowers target .selfClosing word
        (target ++ "('".toList ++ name ++ "', ".toList ++ Attribute.literal (Attribute.parse raw) ++ ")".toList)
  | opening {word name raw : Text} : Tag.Reads word ⟨.opening, name, raw⟩ →
      Lowers target .opening word
        (target ++ "('".toList ++ name ++ "', ".toList ++ Attribute.literal (Attribute.parse raw) ++ ", ".toList)
  | closing {word name : Text} : Tag.Reads word ⟨.closing, name, []⟩ → Lowers target .closing word ")".toList

theorem pass_eq_replace (target source : Text) (kind : Tag.Kind) :
    pass target kind source =
      (Tag.patternOf kind).replace (Tag.call (if kind = .closing then [] else target)) source := by
  cases kind <;> rfl

theorem lowers_of_reads {word : Text} {tag : Tag} (target : Text) (reads : Tag.Reads word tag) :
    Lowers target tag.kind word (tag.call (if tag.kind = .closing then [] else target)) := by
  cases reads with
  | selfClosing named stops absent => exact .selfClosing (.selfClosing named stops absent)
  | opening named stops absent => exact .opening (.opening named stops absent)
  | closing named => exact .closing (.closing named)

theorem pass_cut (target source : Text) (kind : Tag.Kind) :
    ∃ cut, Cut (Tag.Form kind) source cut ∧ Substitutes (Lowers target kind) cut (pass target kind source) := by
  rw [pass_eq_replace]
  rcases (Tag.recognizes_form kind).cut_replace (Tag.call (if kind = .closing then [] else target)) source with
    ⟨cut, walk, substitutes⟩
  refine ⟨cut, walk, substitutes.mono ?_⟩
  intro word new replaced
  rcases replaced with ⟨tag, ⟨rfl, reads⟩, rfl⟩
  exact lowers_of_reads target reads

theorem foreign_closing (word : Text) (form : Tag.Form .closing word) : ')' ∉ word := by
  cases form with
  | closing named =>
    have inName := Text.not_mem_of_isName (c := ')') named (by decide)
    simp [inName]

/-- A pass replaces the tags of its kind from the left, each by its call, and keeps all else. The cut into
these tags is the only one in which no tag of the kind begins outside them. Closing tags are gone after one
pass. -/
theorem pass_substitutes_leftmost (target source : Text) (kind : Tag.Kind) :
    (∃ cut, Cut (Tag.Form kind) source cut ∧ (∀ other, Cut (Tag.Form kind) source other → other = cut) ∧
      Substitutes (Lowers target kind) cut (pass target kind source)) ∧
      closingPass (closingPass source) = closingPass source := by
  constructor
  · rcases pass_cut target source kind with ⟨cut, walk, substitutes⟩
    refine ⟨cut, walk, ?_, substitutes⟩
    intro other again
    exact again.unique (Tag.prefixFree_form kind) walk
  · apply (Tag.recognizes_form .closing).replace_replace (Tag.call []) ')' foreign_closing
    intro word tag reads
    rcases tag with ⟨_, name, raw⟩
    obtain rfl := reads.1
    rfl

-- A name is as long as it can be, a blank before it makes no tag, and `<e<f/>` is one tag.
example : pass "h".toList .selfClosing "x<a1 b=\"c\"/>y< d/><e<f/>".toList =
    "xh('a1', \x7bb: \"c\"\x7d)y< d/>h('e', null)".toList := by
  decide +kernel

-- An opening tag may end with a slash.
example : pass "h".toList .opening "<a b=\x7bc\x7d><d/></a>".toList =
    "h('a', \x7bb: c\x7d, h('d', null, </a>".toList := by
  decide +kernel

end TagCalls.Lowering
