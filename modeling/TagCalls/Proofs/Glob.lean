import TagCalls.Glob.Parser

/-!
Two shapes of globs and the paths that they accept: everything that ends in a text, and everything below a
directory. The name of the directory is part of the glob, so its stars and question marks are read as such;
they still match themselves. Brackets, braces and backslashes do not.
-/
namespace TagCalls.Glob

def literals (t : Text) : List Item := t.map .literal

def isSpecial (c : Char) : Bool := c ∈ ['?', '*', '[', '{', '}', '\\']

def isLiteral (t : Text) : Bool := t.all (!isSpecial ·)

/-- A character that begins or ends something, or takes the next one as it stands. -/
def isBracket (c : Char) : Bool := c ∈ ['[', '{', '}', '\\']

def isUnbracketed (t : Text) : Bool := t.all (!isBracket ·)

theorem isUnbracketed_append (s t : Text) : isUnbracketed (s ++ t) = (isUnbracketed s && isUnbracketed t) :=
  List.all_append

theorem isUnbracketed_cons {c : Char} {t : Text} :
    isUnbracketed (c :: t) = true ↔ isBracket c = false ∧ isUnbracketed t = true := by
  rw [isUnbracketed, List.all_cons, Bool.and_eq_true, Bool.not_eq_true', ← isUnbracketed]

/-! ### Matching -/

/-- Items that match a text in front of any other. -/
def Takes (items : List Item) (t : Text) : Prop := ∀ rest, rest ∈ ends items (utf8 t ++ rest)

section
variable {items more : List Item} {path rest : Bytes} {s t : Text}

theorem matchesBytes_of_ends (matched : [] ∈ ends items path) : matchesBytes items path = true := by
  unfold matchesBytes
  split
  · rfl
  · exact List.any_eq_true.mpr ⟨[], matched, rfl⟩

theorem mem_ends_cons {item : Item} :
    rest ∈ ends (item :: items) path ↔ ∃ middle ∈ item.ends path, rest ∈ ends items middle := by
  rw [ends, List.mem_flatMap]

theorem mem_ends_single {item : Item} (matched : rest ∈ item.ends path) : rest ∈ ends [item] path := by
  apply mem_ends_cons.mpr
  refine ⟨rest, matched, ?_⟩
  rw [ends]
  exact List.mem_singleton_self rest

theorem mem_ends_append {middle : Bytes} (first : middle ∈ ends items path) (second : rest ∈ ends more middle) :
    rest ∈ ends (items ++ more) path := by
  induction items generalizing path with
  | nil =>
    rw [ends, List.mem_singleton] at first
    rw [List.nil_append, ← first]
    exact second
  | cons item items ih =>
    obtain ⟨next, here, later⟩ := mem_ends_cons.mp first
    rw [List.cons_append]
    exact mem_ends_cons.mpr ⟨next, here, ih later⟩

theorem mem_suffixes (front back : Bytes) : back ∈ suffixes (front ++ back) := by
  induction front with
  | nil => cases back <;> exact List.mem_cons_self
  | cons b front ih => exact List.mem_cons_of_mem _ ih

theorem mem_behindSlashes (front back : Bytes) : back ∈ behindSlashes (front ++ slash :: back) := by
  induction front with
  | nil =>
    rw [List.nil_append, behindSlashes, if_pos rfl]
    exact List.mem_cons_self
  | cons b front ih =>
    rw [List.cons_append, behindSlashes]
    split
    · exact List.mem_cons_of_mem _ ih
    · exact ih

theorem dropBytes?_append (literal path : Bytes) : dropBytes? literal (literal ++ path) = some path := by
  induction literal with
  | nil => rfl
  | cons b literal ih =>
    rw [List.cons_append, dropBytes?, if_pos rfl]
    exact ih

theorem utf8_append (s t : Text) : utf8 (s ++ t) = utf8 s ++ utf8 t := List.flatMap_append

theorem utf8_slash (t : Text) : utf8 ('/' :: t) = slash :: utf8 t := rfl

theorem takes_append (first : Takes items s) (second : Takes more t) : Takes (items ++ more) (s ++ t) := by
  intro rest
  rw [utf8_append, List.append_assoc]
  exact mem_ends_append (first _) (second rest)

theorem takes_literal (c : Char) : Takes [.literal c] [c] := by
  intro rest
  apply mem_ends_single
  have text : utf8 [c] = String.utf8EncodeChar c := List.append_nil _
  rw [text, Item.ends, dropBytes?_append]
  exact List.mem_singleton_self rest

theorem takes_any : Takes [.any] ['?'] := by
  intro rest
  apply mem_ends_single
  rw [Item.ends]
  exact List.mem_singleton_self rest

theorem takes_run (t : Text) : Takes [.run] t := by
  intro rest
  apply mem_ends_single
  rw [Item.ends]
  exact mem_suffixes _ rest

theorem takes_leading (t : Text) : Takes [.leading] (t ++ ['/']) := by
  intro rest
  apply mem_ends_single
  rw [Item.ends, utf8_append, List.append_assoc]
  exact List.mem_cons_of_mem _ (mem_behindSlashes (utf8 t) rest)

theorem takes_between (t : Text) : Takes [.between] ('/' :: (t ++ ['/'])) := by
  intro rest
  apply mem_ends_single
  rw [utf8_slash, List.cons_append, Item.ends, if_pos rfl, utf8_append, List.append_assoc]
  exact List.mem_cons_of_mem _ (mem_behindSlashes (utf8 t) rest)

theorem takes_literals (t : Text) : Takes (literals t) t := by
  induction t with
  | nil =>
    intro rest
    rw [literals, List.map_nil, ends]
    exact List.mem_singleton_self rest
  | cons c t ih => exact takes_append (takes_literal c) ih

theorem accepts_ending (front ending : Text) :
    accepts ⟨.leading :: .run :: literals ending⟩ (front ++ ending) = true := by
  apply matchesBytes_of_ends
  apply mem_ends_cons.mpr
  refine ⟨utf8 (front ++ ending), by rw [Item.ends]; exact List.mem_cons_self, ?_⟩
  have all := takes_append (takes_run front) (takes_literals ending) []
  rw [List.append_nil] at all
  exact all

theorem utf8_ne_nil (front : Text) (c : Char) (back : Text) : utf8 (front ++ c :: back) ≠ [] := by
  have size := c.utf8Size_pos
  rw [← String.length_utf8EncodeChar] at size
  intro empty
  rw [utf8_append, List.append_eq_nil_iff, utf8, utf8, List.flatMap_cons, List.append_eq_nil_iff] at empty
  rw [empty.2.1] at size
  exact absurd size (Nat.lt_irrefl 0)

theorem accepts_trailing (takes : Takes items s) (middle : Text) (c : Char) (back : Text) :
    accepts ⟨items ++ [.trailing]⟩ (s ++ '/' :: (middle ++ c :: back)) = true := by
  apply matchesBytes_of_ends
  obtain ⟨b, inner, bytes⟩ := List.exists_cons_of_ne_nil (utf8_ne_nil middle c back)
  rw [utf8_append, utf8_slash, bytes]
  apply mem_ends_append (takes _)
  apply mem_ends_single
  rw [Item.ends, if_pos rfl, ← List.append_nil inner]
  exact mem_suffixes inner []

end

/-! ### Reading one part -/

section
variable (items : List Item) (last : Option Char) (t : Text)

theorem parseFrom_plain {c : Char} (plain : isSpecial c = false) :
    parseFrom ⟨items, [], last, none⟩ (c :: t) = parseFrom ⟨.literal c :: items, [], some c, none⟩ t := by
  simp only [isSpecial, List.mem_cons, List.not_mem_nil, or_false, decide_eq_false_iff_not, not_or] at plain
  obtain ⟨_, _, _, _, _, _⟩ := plain
  rw [parseFrom]
  dsimp only
  split <;> try contradiction
  · rfl
  · rfl

theorem parseFrom_any :
    parseFrom ⟨items, [], last, none⟩ ('?' :: t) = parseFrom ⟨.any :: items, [], some '?', none⟩ t := by
  rw [parseFrom]
  rfl

theorem parseFrom_star {d : Char} (single : d ≠ '*') :
    parseFrom ⟨items, [], last, none⟩ ('*' :: d :: t) = parseFrom ⟨.run :: items, [], some '*', none⟩ (d :: t) := by
  rw [parseFrom]
  dsimp only
  split <;> simp_all [Progress.push]

theorem parseFrom_stars {d : Char} (other : d ≠ '/') :
    parseFrom ⟨items, [], last, none⟩ ('*' :: '*' :: d :: t) =
      parseFrom ⟨.run :: .run :: items, [], some '*', none⟩ (d :: t) := by
  rw [parseFrom]
  dsimp only
  split <;> simp_all [Progress.push, Progress.pushRuns]

theorem parseFrom_directories :
    parseFrom ⟨items, [], last, none⟩ ('*' :: '*' :: '/' :: t) =
      if items.isEmpty then parseFrom ⟨[.leading], [], some '/', none⟩ t
      else if last = some '/' then
        parseFrom { Progress.directories .between ⟨items, [], last, none⟩ with last := some '/' } t
      else parseFrom ⟨.literal '/' :: .run :: .run :: items, [], some '/', none⟩ t := by
  rw [parseFrom]
  cases items with
  | nil => rfl
  | cons item items =>
    by_cases slash : last = some '/'
    · subst slash
      rfl
    · simp [slash, Progress.behindSlash, Progress.push, Progress.pushRuns]

end

theorem parseFrom_literals {t : Text} (plain : isLiteral t = true) (items : List Item) (last : Option Char)
    (rest : Text) :
    ∃ next, parseFrom ⟨items, [], last, none⟩ (t ++ rest) =
      parseFrom ⟨(literals t).reverse ++ items, [], next, none⟩ rest := by
  induction t generalizing items last with
  | nil => exact ⟨last, rfl⟩
  | cons c t ih =>
    rw [isLiteral, List.all_cons, Bool.and_eq_true, Bool.not_eq_true'] at plain
    obtain ⟨next, read⟩ := ih plain.2 (.literal c :: items) (some c)
    refine ⟨next, ?_⟩
    rw [List.cons_append, parseFrom_plain _ _ _ plain.1, read]
    simp [literals]

theorem parse_ending {ending : Text} (filled : ending ≠ []) (plain : isLiteral ending = true) :
    parse ("**/*".toList ++ ending) = .ok ⟨.leading :: .run :: literals ending⟩ := by
  obtain ⟨next, read⟩ := parseFrom_literals plain [.run, .leading] (some '*') []
  have star : parseFrom ⟨[.leading], [], some '/', none⟩ ('*' :: ending) =
      parseFrom ⟨[.run, .leading], [], some '*', none⟩ ending := by
    obtain ⟨d, t, rfl⟩ := List.exists_cons_of_ne_nil filled
    have single : d ≠ '*' := by
      rintro rfl
      cases plain
    exact parseFrom_star _ _ t single
  have stars : parseFrom {} ("**/*".toList ++ ending) =
      parseFrom ⟨[.leading], [], some '/', none⟩ ('*' :: ending) := rfl
  rw [List.append_nil] at read
  rw [parse, stars, star, read, parseFrom]
  simp [bind, Except.bind, pure, Except.pure]

/-! ### Reading a directory -/

/-- Items, the last one first, behind a slash of a text: the last one stands for the text from some slash on,
or directories in front stand for all of it. -/
inductive AtSlash : Text → List Item → Prop
  | leading {text : Text} : AtSlash text [.leading]
  | literal {front middle : Text} {before : List Item} : Takes before.reverse front →
      AtSlash (front ++ '/' :: middle) (.literal '/' :: before)
  | between {front middle : Text} {before : List Item} : Takes before.reverse front →
      AtSlash (front ++ '/' :: middle) (.between :: before)

structure Spells (text : Text) (items : List Item) (last : Option Char) : Prop where
  takes : Takes items.reverse text
  slash : last = some '/' → AtSlash text items

def Covers (read : Except Error Progress) (text : Text) : Prop :=
  ∃ progress, read = .ok progress ∧ progress.groups = [] ∧
    ∀ c back, accepts ⟨progress.items.reverse⟩ (text ++ c :: back) = true

section
variable {text : Text} {items : List Item} {last : Option Char}

theorem spells_nil : Spells [] [] none := ⟨takes_literals [], nofun⟩

theorem Spells.push (spells : Spells text items last) {item : Item} {c : Char} (one : Takes [item] [c])
    (literal : c = '/' → item = .literal '/') : Spells (text ++ [c]) (item :: items) (some c) where
  takes := by
    rw [List.reverse_cons]
    exact takes_append spells.takes one
  slash here := by
    obtain rfl := Option.some.inj here
    rw [literal rfl]
    exact .literal spells.takes

theorem Spells.runs (spells : Spells text items last) :
    Spells (text ++ "**".toList) (.run :: .run :: items) (some '*') := by
  have first := spells.push (takes_run ['*']) nofun
  have second := first.push (takes_run ['*']) nofun
  rw [List.append_assoc] at second
  exact second

theorem Spells.directories (spells : Spells text items last) :
    ∃ next, Spells (text ++ "**/".toList) next (some '/') ∧
      ∀ t, parseFrom ⟨items, [], last, none⟩ ('*' :: '*' :: '/' :: t) = parseFrom ⟨next, [], some '/', none⟩ t := by
  have whole : text ++ "**/".toList = (text ++ "**".toList) ++ ['/'] := by simp
  have front : Spells (text ++ "**/".toList) [.leading] (some '/') := by
    rw [whole]
    exact ⟨takes_leading _, fun _ => .leading⟩
  by_cases empty : items = []
  · subst empty
    exact ⟨_, front, fun t => parseFrom_directories [] last t⟩
  by_cases slash : last = some '/'
  · have between {before : List Item} {outer middle : Text} (takes : Takes before.reverse outer) :
        Spells (outer ++ '/' :: middle ++ "**/".toList) (.between :: before) (some '/') := by
      have shape : outer ++ '/' :: middle ++ "**/".toList = outer ++ '/' :: (middle ++ "**".toList ++ ['/']) := by simp
      rw [shape]
      refine ⟨?_, fun _ => .between takes⟩
      rw [List.reverse_cons]
      exact takes_append takes (takes_between _)
    subst slash
    cases spells.slash rfl with
    | leading => exact ⟨_, front, fun t => parseFrom_directories [.leading] _ t⟩
    | literal takes => exact ⟨_, between takes, fun t => parseFrom_directories (.literal '/' :: _) _ t⟩
    | between takes => exact ⟨_, between takes, fun t => parseFrom_directories (.between :: _) _ t⟩
  · have inner := spells.runs.push (takes_literal '/') fun _ => rfl
    rw [← whole] at inner
    refine ⟨_, inner, fun t => ?_⟩
    rw [parseFrom_directories, if_neg (by simpa using empty), if_neg slash]

theorem covers_trailing (here : AtSlash text items) :
    Covers (parseFrom ⟨items, [], some '/', none⟩ "**".toList) text := by
  cases here with
  | leading => exact ⟨_, rfl, rfl, fun _ _ => rfl⟩
  | @literal front middle before takes | @between front middle before takes =>
    refine ⟨_, rfl, rfl, ?_⟩
    intro c back
    have accepted := accepts_trailing takes middle c back
    rw [← List.reverse_cons] at accepted
    rw [List.append_assoc, List.cons_append]
    exact accepted

theorem covers_stars (rest : Text) (plain : isUnbracketed rest = true) (spells : Spells text items last)
    (known : ∀ (name : Text) {text : Text} {items : List Item} {last : Option Char}, name.length ≤ rest.length →
      isUnbracketed name = true → Spells text items last →
        Covers (parseFrom ⟨items, [], last, none⟩ (name ++ "/**".toList)) (text ++ name ++ ['/'])) :
    Covers (parseFrom ⟨items, [], last, none⟩ ('*' :: '*' :: (rest ++ "/**".toList)))
      (text ++ "**".toList ++ rest ++ ['/']) := by
  obtain ⟨next, spelled, read⟩ := spells.directories
  cases rest with
  | nil =>
    have shape : text ++ "**".toList ++ [] ++ ['/'] = text ++ "**/".toList := by simp
    have stars := read "**".toList
    rw [shape]
    exact stars ▸ covers_trailing (spelled.slash rfl)
  | cons c rest =>
    by_cases slash : c = '/'
    · subst slash
      have shape : text ++ "**".toList ++ '/' :: rest = text ++ "**/".toList ++ rest := by simp
      rw [List.cons_append, read, shape]
      exact known rest (by simp) (isUnbracketed_cons.mp plain).2 spelled
    · rw [List.cons_append, parseFrom_stars items last _ slash, ← List.cons_append]
      exact known (c :: rest) (Nat.le_refl _) plain spells.runs

theorem covers_name (name : Text) (plain : isUnbracketed name = true) (spells : Spells text items last) :
    Covers (parseFrom ⟨items, [], last, none⟩ (name ++ "/**".toList)) (text ++ name ++ ['/']) := by
  -- not along the characters of the name, because two stars are read at once
  induction size : name.length using Nat.strongRecOn generalizing name text items last with
  | ind n ih =>
    subst size
    cases name with
    | nil =>
      have next := spells.push (takes_literal '/') fun _ => rfl
      have read : parseFrom ⟨items, [], last, none⟩ "/**".toList =
          parseFrom ⟨.literal '/' :: items, [], some '/', none⟩ "**".toList := parseFrom_plain items last _ rfl
      rw [List.nil_append, read, List.append_nil]
      exact covers_trailing (next.slash rfl)
    | cons c name =>
      obtain ⟨first, rest⟩ := isUnbracketed_cons.mp plain
      rw [List.append_cons text c name, List.cons_append]
      by_cases question : c = '?'
      · subst question
        rw [parseFrom_any]
        exact ih _ (by simp) name rest (spells.push takes_any nofun) rfl
      by_cases star : c = '*'
      · subst star
        have single := spells.push (takes_run ['*']) nofun
        cases name with
        | nil =>
          have read : parseFrom ⟨items, [], last, none⟩ ('*' :: ([] ++ "/**".toList)) =
              parseFrom ⟨.run :: items, [], some '*', none⟩ ([] ++ "/**".toList) :=
            parseFrom_star items last _ (by decide)
          rw [read]
          exact ih 0 (by simp) [] rfl single rfl
        | cons d name =>
          by_cases double : d = '*'
          · subst double
            have shape : text ++ ['*'] ++ '*' :: name = text ++ "**".toList ++ name := by simp
            rw [shape]
            apply covers_stars name (isUnbracketed_cons.mp rest).2 spells
            intro other text items last short plain spells
            exact ih _ (by simp; omega) other plain spells rfl
          · rw [List.cons_append, parseFrom_star items last _ double, ← List.cons_append]
            exact ih _ (by simp) (d :: name) rest single rfl
      · have ordinary : isSpecial c = false := by simp_all [isBracket, isSpecial]
        rw [parseFrom_plain items last _ ordinary]
        exact ih _ (by simp) name rest (spells.push (takes_literal c) fun here => here ▸ rfl) rfl

end

theorem accepts_below {directory : Text} (plain : isUnbracketed directory = true) :
    ∃ glob, parse (directory ++ "/**".toList) = .ok glob ∧
      ∀ c back, glob.accepts (directory ++ '/' :: c :: back) = true := by
  obtain ⟨progress, read, closed, accepted⟩ := covers_name directory plain spells_nil
  refine ⟨⟨progress.items.reverse⟩, ?_, ?_⟩
  · have start : parseFrom {} (directory ++ "/**".toList) = .ok progress := read
    rw [parse, start]
    simp [bind, Except.bind, closed, pure, Except.pure]
  · intro c back
    rw [List.append_cons]
    exact accepted c back

end TagCalls.Glob
