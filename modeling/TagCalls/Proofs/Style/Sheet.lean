import Mathlib.Data.Finset.Card
import TagCalls.Style.Sheet

/-!
A sheet after any registrations. Its text is told by the names that the registrations returned and by what
the first registration of each name asked for, whatever later ones of that name asked for; contents that
share a name share a rule. Main statement: `registerAll_tells_sheet`.
-/
namespace TagCalls.Style

structure Request where
  kind : Kind
  parts : List Text
  values : List Text
  deriving DecidableEq, Repr

namespace Request

/-- The template filled in: each part is followed by the value of the same index, if there is one. -/
def content (request : Request) : Text :=
  (request.parts.mapIdx fun index part => part ++ request.values.getD index []).flatten

def rule (request : Request) : Rule := request.kind.rule request.content

end Request

def Sheet.registerAll : Sheet → List Request → List Text × Sheet
  | sheet, [] => ([], sheet)
  | sheet, request :: requests =>
    let (name, next) := sheet.register request.kind request.parts request.values
    let (names, last) := next.registerAll requests
    (name :: names, last)

/-- A rule as it is written. The pieces of a class between `&` are joined by its selector. -/
def Kind.written (kind : Kind) (name content : Text) : Text :=
  match kind with
  | .css => '.' :: (name ++ "\x7b".toList ++ ('.' :: name).intercalate (content.splitOn '&') ++ "\x7d\n".toList)
  | .keyframes => "@keyframes ".toList ++ name ++ "\x7b".toList ++ content ++ "\x7d\n".toList

def firsts {α : Type} (key : α → Text) : List α → List α
  | [] => []
  | item :: items => item :: (firsts key items).filter (key · ≠ key item)

/-! ### The first items of each key -/

section
variable {α β : Type} {key : α → Text}

theorem firsts_subset (items : List α) : firsts key items ⊆ items := by
  induction items with
  | nil => exact List.Subset.refl _
  | cons item items ih =>
    apply List.cons_subset_cons
    exact List.Subset.trans List.filter_sublist.subset ih

theorem exists_first (key : α → Text) {items : List α} {item : α} (member : item ∈ items) :
    ∃ first ∈ firsts key items, key first = key item := by
  induction items with
  | nil => cases member
  | cons head items ih =>
    by_cases same : key head = key item
    · exact ⟨head, List.mem_cons_self, same⟩
    · have later : item ∈ items := (List.mem_cons.mp member).resolve_left fun equal => same (equal ▸ rfl)
      obtain ⟨first, inside, equal⟩ := ih later
      refine ⟨first, List.mem_cons_of_mem head (List.mem_filter.mpr ⟨inside, ?_⟩), equal⟩
      simpa [equal] using Ne.symm same

theorem nodup_map_firsts (items : List α) : ((firsts key items).map key).Nodup := by
  induction items with
  | nil => exact List.nodup_nil
  | cons item items ih =>
    rw [firsts, List.map_cons, List.nodup_cons]
    constructor
    · simp
    · exact ih.sublist (List.filter_sublist.map key)

theorem mem_map_firsts {items : List α} {k : Text} : k ∈ (firsts key items).map key ↔ k ∈ items.map key := by
  constructor
  · intro member
    exact List.map_subset key (firsts_subset items) member
  · intro member
    obtain ⟨item, inside, rfl⟩ := List.mem_map.mp member
    obtain ⟨first, found, same⟩ := exists_first key inside
    exact List.mem_map.mpr ⟨first, found, same⟩

theorem firsts_map (f : β → α) (items : List β) :
    firsts key (items.map f) = (firsts (fun item => key (f item)) items).map f := by
  induction items with
  | nil => rfl
  | cons item items ih => rw [List.map_cons, firsts, ih, List.filter_map, firsts, List.map_cons]; rfl

theorem length_firsts (items : List α) : (firsts key items).length = (items.map key).toFinset.card := by
  have same : (items.map key).toFinset = ((firsts key items).map key).toFinset := by
    ext k
    rw [List.mem_toFinset, List.mem_toFinset, mem_map_firsts]
  rw [same, List.toFinset_card_of_nodup (nodup_map_firsts items), List.length_map]

end

/-! ### Rules -/

theorem intercalate_modifyHead (separator : Text) (c : Char) {pieces : List Text} (filled : pieces ≠ []) :
    separator.intercalate (pieces.modifyHead (c :: ·)) = c :: separator.intercalate pieces := by
  obtain ⟨piece, rest, rfl⟩ := List.exists_cons_of_ne_nil filled
  cases rest with
  | nil => simp [List.intercalate]
  | cons next rest => simp [List.intercalate_cons_cons]

theorem flatMap_sign (sign : Char) (text content : Text) :
    (content.flatMap fun c => if c = sign then text else [c]) = text.intercalate (content.splitOn sign) := by
  induction content with
  | nil => simp [List.splitOn, List.intercalate]
  | cons c content ih =>
    have filled : content.splitOn sign ≠ [] := List.splitOnP_ne_nil _ _
    rw [List.flatMap_cons, ih]
    unfold List.splitOn at filled ⊢
    rw [List.splitOnP_cons_eq_if_modifyHead]
    by_cases here : c = sign
    · rw [if_pos here, if_pos (by simp [here]), List.intercalate_cons_of_ne_nil filled]
      rfl
    · rw [if_neg here, if_neg (by simp [here]), intercalate_modifyHead text c filled]
      rfl

theorem interpolate_eq (parts values : List Text) :
    interpolate parts values = (parts.mapIdx fun index part => part ++ values.getD index []).flatten := by
  induction parts generalizing values with
  | nil => rfl
  | cons part parts ih =>
    cases values with
    | nil =>
      rw [interpolate, ih, List.mapIdx_cons, List.flatten_cons]
      simp
    | cons value values =>
      rw [interpolate, ih, List.mapIdx_cons, List.flatten_cons]
      rfl

theorem text_rule (kind : Kind) (content : Text) :
    (kind.rule content).text = kind.written (kind.rule content).name content := by
  cases kind with
  | css =>
    unfold Kind.written Kind.rule classRule
    dsimp only
    rw [flatMap_sign]
  | keyframes => rfl

theorem text_rule_ne_nil (kind : Kind) (content : Text) : (kind.rule content).text ≠ [] := by
  cases kind <;> simp [Kind.rule, classRule, keyframesRule]

theorem name_css_ne_keyframes (one two : Text) : (Kind.css.rule one).name ≠ (Kind.keyframes.rule two).name := by
  intro same
  have heads : 'c' = 'k' := (List.cons.inj same).1
  exact absurd heads (by decide)

/-! ### One registration -/

section
variable {sheet : Sheet} {rule : Rule}

theorem insert_of_mem (known : rule.name ∈ sheet.names) : sheet.insert rule = sheet := if_pos known

theorem insert_of_not_mem (fresh : rule.name ∉ sheet.names) :
    sheet.insert rule = ⟨sheet.text ++ rule.text, sheet.names ++ [rule.name]⟩ := if_neg fresh

theorem prefix_insert (sheet : Sheet) (rule : Rule) : sheet.text <+: (sheet.insert rule).text := by
  by_cases known : rule.name ∈ sheet.names
  · rw [insert_of_mem known]
  · rw [insert_of_not_mem known]
    exact List.prefix_append _ _

theorem text_insert_iff (filled : rule.text ≠ []) :
    (sheet.insert rule).text = sheet.text ↔ rule.name ∈ sheet.names := by
  constructor
  · intro same
    by_contra fresh
    rw [insert_of_not_mem fresh] at same
    exact filled (List.append_right_eq_self.mp same)
  · intro known
    rw [insert_of_mem known]

theorem size_insert_iff : (sheet.insert rule).size = sheet.size ↔ rule.name ∈ sheet.names := by
  constructor
  · intro same
    by_contra fresh
    rw [insert_of_not_mem fresh, Sheet.size, List.length_append] at same
    exact absurd same (Nat.succ_ne_self _)
  · intro known
    rw [insert_of_mem known]

end

/-! ### All registrations -/

def Sheet.fresh (sheet : Sheet) (rules : List Rule) : List Rule :=
  (firsts Rule.name rules).filter fun rule => !sheet.names.contains rule.name

theorem fresh_of_mem {sheet : Sheet} {rule : Rule} (known : rule.name ∈ sheet.names) (rules : List Rule) :
    sheet.fresh (rule :: rules) = sheet.fresh rules := by
  rw [Sheet.fresh, Sheet.fresh, firsts, List.filter_cons_of_neg (by simpa using known), List.filter_filter]
  apply List.filter_congr
  intro other _
  by_cases old : other.name ∈ sheet.names
  · simp [old]
  · have distinct : other.name ≠ rule.name := fun same => old (same ▸ known)
    simp [old, distinct]

theorem fresh_of_not_mem {sheet : Sheet} {rule : Rule} (lacking : rule.name ∉ sheet.names) (rules : List Rule) :
    sheet.fresh (rule :: rules) = rule :: (sheet.insert rule).fresh rules := by
  rw [Sheet.fresh, Sheet.fresh, firsts, List.filter_cons_of_pos (by simpa using lacking), List.filter_filter,
    insert_of_not_mem lacking]
  simp only [List.contains_eq_mem, List.mem_append, List.mem_singleton, Bool.decide_or, Bool.not_or, ne_eq, decide_not]

theorem foldl_insert (sheet : Sheet) (rules : List Rule) :
    rules.foldl Sheet.insert sheet =
      ⟨sheet.text ++ (sheet.fresh rules).flatMap (·.text), sheet.names ++ (sheet.fresh rules).map (·.name)⟩ := by
  induction rules generalizing sheet with
  | nil => simp [Sheet.fresh, firsts]
  | cons rule rules ih =>
    rw [List.foldl_cons, ih]
    by_cases known : rule.name ∈ sheet.names
    · rw [fresh_of_mem known, insert_of_mem known]
    · rw [fresh_of_not_mem known]
      simp [insert_of_not_mem known]

theorem fresh_empty (rules : List Rule) : Sheet.fresh {} rules = firsts Rule.name rules := by
  rw [Sheet.fresh, List.filter_eq_self]
  simp

theorem register_eq (sheet : Sheet) (request : Request) :
    sheet.register request.kind request.parts request.values = (request.rule.name, sheet.insert request.rule) := by
  rw [Sheet.register, interpolate_eq]
  rfl

theorem registerAll_eq (sheet : Sheet) (requests : List Request) :
    sheet.registerAll requests =
      (requests.map (·.rule.name), (requests.map (·.rule)).foldl Sheet.insert sheet) := by
  induction requests generalizing sheet with
  | nil => rfl
  | cons request requests ih =>
    rw [Sheet.registerAll, register_eq]
    simp only [ih]
    rfl

theorem names_registerAll (requests : List Request) :
    (Sheet.registerAll {} requests).2.names = (firsts Rule.name (requests.map (·.rule))).map (·.name) := by
  rw [registerAll_eq, foldl_insert, fresh_empty]
  rfl

theorem text_registerAll (requests : List Request) :
    (Sheet.registerAll {} requests).2.text = (firsts Rule.name (requests.map (·.rule))).flatMap (·.text) := by
  rw [registerAll_eq, foldl_insert, fresh_empty]
  rfl

theorem size_registerAll (requests : List Request) :
    (Sheet.registerAll {} requests).2.size = (requests.map (·.rule.name)).toFinset.card := by
  rw [Sheet.size, names_registerAll, List.length_map, length_firsts, List.map_map]
  rfl

theorem mem_names_registerAll (requests : List Request) (name : Text) :
    name ∈ (Sheet.registerAll {} requests).2.names ↔ name ∈ (Sheet.registerAll {} requests).1 := by
  rw [names_registerAll, mem_map_firsts, registerAll_eq, List.map_map]
  rfl

/-- After any registrations the text is made of one rule for each name that they returned, in the order in
which the names first came, as the first registration of the name asked for it; there are as many rules as
different names. One more registration leaves the text as a beginning of the new one, and leaves text and
number of rules as they are exactly if its name had been returned before. No class has the name of an
animation. -/
theorem registerAll_tells_sheet (requests : List Request) :
    ∃ names sheet, Sheet.registerAll {} requests = (names, sheet) ∧
      sheet.text = (firsts Prod.fst (names.zip requests)).flatMap
        (fun item => item.2.kind.written item.1 item.2.content) ∧
      sheet.size = names.toFinset.card ∧
      (∀ kind parts values, ∃ name next, sheet.register kind parts values = (name, next) ∧
        sheet.text <+: next.text ∧
        (next.text = sheet.text ↔ name ∈ names) ∧ (next.size = sheet.size ↔ name ∈ names)) ∧
      ∀ (other : Sheet) parts values parts' values',
        (sheet.register .css parts values).1 ≠ (other.register .keyframes parts' values').1 := by
  have returned : (Sheet.registerAll {} requests).1 = requests.map (·.rule.name) := by rw [registerAll_eq]
  refine ⟨_, _, rfl, ?_, ?_, ?_, ?_⟩
  · have pairs : (requests.map (·.rule.name)).zip requests =
        requests.map fun request => (request.rule.name, request) := by
      have zipped := @List.zip_map' _ _ _ (fun request : Request => request.rule.name) id requests
      rw [List.map_id] at zipped
      exact zipped
    calc
      _ = (firsts Rule.name (requests.map (·.rule))).flatMap (·.text) := text_registerAll requests
      _ = (firsts (·.rule.name) requests).flatMap (·.rule.text) := by rw [firsts_map, List.flatMap_map]
      _ = (firsts (·.rule.name) requests).flatMap
            (fun request => request.kind.written request.rule.name request.content) := by
        congr 1
        funext request
        exact text_rule request.kind request.content
      _ = _ := by rw [returned, pairs, firsts_map, List.flatMap_map]
  · rw [returned]
    exact size_registerAll requests
  · intro kind parts values
    have known := mem_names_registerAll requests (kind.rule (interpolate parts values)).name
    refine ⟨_, _, rfl, prefix_insert _ _, ?_, ?_⟩
    · exact (text_insert_iff (text_rule_ne_nil kind _)).trans known
    · exact size_insert_iff.trans known
  · intro other parts values parts' values'
    exact name_css_ne_keyframes _ _

/-- `Aa1&` without a value for its second part, an animation `BB1` with a value too many, and `BB1&`, which has the
hash of the first. -/
def collidingRequests : List Request :=
  [⟨.css, ["Aa".toList, "&".toList], ["1".toList]⟩,
   ⟨.keyframes, ["BB".toList], ["1".toList, "2".toList]⟩,
   ⟨.css, ["B".toList, "1&".toList], ["B".toList]⟩]

/-- The third style gets the name of the first and no rule of its own. -/
theorem registerAll_collidingRequests :
    ∃ names sheet, Sheet.registerAll {} collidingRequests = (names, sheet) ∧
      names = ["c17j9x".toList, "kc1ek1".toList, "c17j9x".toList] ∧
      sheet.text = ".c17j9x\x7bAa1.c17j9x\x7d\n@keyframes kc1ek1\x7bBB1\x7d\n".toList ∧ sheet.size = 2 := by
  obtain ⟨names, sheet, ran, text, size, _⟩ := registerAll_tells_sheet collidingRequests
  have returned : names = ["c17j9x".toList, "kc1ek1".toList, "c17j9x".toList] := by
    have first : (Sheet.registerAll {} collidingRequests).1 = names := congrArg Prod.fst ran
    rw [← first]
    decide +kernel
  refine ⟨names, sheet, ran, returned, ?_, ?_⟩
  · rw [text, returned]
    decide +kernel
  · rw [size, returned]
    decide +kernel

end TagCalls.Style
