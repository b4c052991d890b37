import TagCalls.Proofs.Lowering.Balance
import TagCalls.Proofs.Markup.Attribute

/-!
Markup as trees. A forest is written as tags with text between them, and lowering what is written
gives the forest of calls: `nested_render`.
-/
namespace TagCalls.Markup

def Harmless.Next (t : Text) : Prop := ∃ c rest, t = c :: rest ∧ Text.isNameChar c = false ∧ c ≠ '/'

/-- A text in which no `<` can begin a tag, whatever follows the text. -/
def Harmless (t : Text) : Prop := ∀ before after, t = before ++ '<' :: after → Harmless.Next after

theorem harmless_cons {c : Char} {t : Text} :
    Harmless (c :: t) ↔ (c = '<' → Harmless.Next t) ∧ Harmless t := by
  constructor
  · intro harmless
    constructor
    · intro same
      subst same
      exact harmless [] t rfl
    · intro before after split
      exact harmless (c :: before) after (by rw [split]; rfl)
  · intro parts before after split
    rcases parts with ⟨here, harmless⟩
    cases before with
    | nil =>
      rcases List.cons.inj split with ⟨opens, rfl⟩
      exact here opens
    | cons d before => exact harmless before after (List.cons.inj split).2

instance : (t : Text) → Decidable (Harmless.Next t)
  | [] => .isFalse fun ⟨_, _, empty, _⟩ => by cases empty
  | c :: t => decidable_of_iff (Text.isNameChar c = false ∧ c ≠ '/')
      ⟨fun next => ⟨c, t, rfl, next⟩, fun ⟨_, _, same, next⟩ => by cases same; exact next⟩

instance decidableHarmless : (t : Text) → Decidable (Harmless t)
  | [] => .isTrue fun before after split => by simp at split
  | c :: t =>
    have := decidableHarmless t
    decidable_of_iff _ harmless_cons.symm

inductive Node where
  | text (content : Text) (harmless : Harmless content)
  | leaf (name : Name) (attrs : List Attr)
  | element (name : Name) (attrs : List Attr) (children : List Node)

mutual

def Node.render : Node → Text
  | .text content _ => content
  | .leaf name attrs => "<".toList ++ name.val ++ renderAttrs attrs ++ "/>".toList
  | .element name attrs children =>
    "<".toList ++ name.val ++ renderAttrs attrs ++ ">".toList ++ renderForest children ++
      "</".toList ++ name.val ++ ">".toList

def renderForest : List Node → Text
  | [] => []
  | node :: forest => node.render ++ renderForest forest

end

mutual

/-- The calls that stand for a node: `target('name', object)`, with the children as a third argument
where the node has an end tag. -/
def Node.calls (target : Text) : Node → Text
  | .text content _ => content
  | .leaf name attrs =>
    target ++ "('".toList ++ name.val ++ "', ".toList ++ object attrs ++ ")".toList
  | .element name attrs children =>
    target ++ "('".toList ++ name.val ++ "', ".toList ++ object attrs ++ ", ".toList ++
      callForest target children ++ ")".toList

def callForest (target : Text) : List Node → Text
  | [] => []
  | node :: forest => node.calls target ++ callForest target forest

end

/-! ### The walk over a forest -/

mutual

def Node.segments : Node → List (Segment Tag)
  | .text content _ => content.map .plain
  | .leaf name attrs => [.found ⟨.selfClosing, name.val, renderAttrs attrs⟩]
  | .element name attrs children =>
    .found ⟨.opening, name.val, renderAttrs attrs⟩ ::
      (segmentsOf children ++ [.found ⟨.closing, name.val, []⟩])

def segmentsOf : List Node → List (Segment Tag)
  | [] => []
  | node :: forest => node.segments ++ segmentsOf forest

end

theorem read_harmless (c : Char) (t rest : Text) (harmless : Harmless (c :: t)) :
    Tag.read (c :: (t ++ rest)) = .plain := by
  by_cases opens : c = '<'
  · subst opens
    rcases (harmless_cons.mp harmless).1 rfl with ⟨d, tail, rfl, noName, noSlash⟩
    have stops : Text.NameStops (d :: (tail ++ rest)) := Text.nameStops_cons.mpr noName
    have noClosing : Tag.readClosing? ('<' :: d :: (tail ++ rest)) = none := by
      simp [Tag.readClosing?, Text.dropLiteral?, Ne.symm noSlash]
    simp only [List.cons_append, Tag.read, if_true, noClosing, Tag.readNamed, Text.takeName?_eq_none stops]
  · simp only [Tag.read, if_neg opens]

theorem walk_text (content rest : Text) (segments : List (Segment Tag)) (ending : Option Text)
    (harmless : Harmless content) (walk : Tag.Walk rest segments ending) :
    Tag.Walk (content ++ rest) (content.map .plain ++ segments) ending := by
  induction content with
  | nil => exact walk
  | cons c content ih =>
    exact .plain (read_harmless c content rest harmless) (ih (harmless_cons.mp harmless).2)

theorem read_leaf (name : Name) (attrs : List Attr) (rest : Text) :
    Tag.read ("<".toList ++ name.val ++ renderAttrs attrs ++ "/>".toList ++ rest) =
      .tagged ⟨.selfClosing, name.val, renderAttrs attrs⟩ rest := by
  have slash : Tag.Items ['/'] := Tag.items_of_plain (by simp [Attribute.isQuote])
  have inside := Tag.items_append (items_renderAttrs attrs) slash
  have stops := nameStops_renderAttrs attrs ('>' :: rest) (show Text.isNameChar '/' = false by decide)
  have goesOn : Tag.GoesOn (renderAttrs attrs ++ '/' :: '>' :: rest)
      (.closed (renderAttrs attrs ++ ['/']) rest) := by
    have closed := @Tag.GoesOn.closed _ rest inside
    rwa [List.append_assoc] at closed
  have stands := Tag.read_of_stands (.selfClosing name.property stops goesOn)
  simpa using stands

theorem read_start (name : Name) (attrs : List Attr) (rest : Text) :
    Tag.read ("<".toList ++ name.val ++ renderAttrs attrs ++ ">".toList ++ rest) =
      .tagged ⟨.opening, name.val, renderAttrs attrs⟩ rest := by
  have stops := nameStops_renderAttrs attrs rest (show Text.isNameChar '>' = false by decide)
  have goesOn := @Tag.GoesOn.closed _ rest (items_renderAttrs attrs)
  have stands := Tag.read_of_stands
    (.opening name.property stops goesOn (getLast_renderAttrs attrs))
  simpa using stands

theorem read_end (name : Name) (rest : Text) :
    Tag.read ("</".toList ++ name.val ++ ">".toList ++ rest) = .tagged ⟨.closing, name.val, []⟩ rest := by
  have stands := Tag.read_of_stands (@Tag.Stands.closing _ rest name.property)
  simpa using stands

mutual

theorem walk_node (node : Node) (rest : Text) (segments : List (Segment Tag)) (ending : Option Text)
    (walk : Tag.Walk rest segments ending) :
    Tag.Walk (node.render ++ rest) (node.segments ++ segments) ending := by
  match node with
  | .text content harmless => exact walk_text content rest segments ending harmless walk
  | .leaf name attrs => exact .tagged (read_leaf name attrs rest) walk
  | .element name attrs children =>
    have closed := Tag.Walk.tagged (read_end name rest) walk
    have inner := walk_forest children _ _ ending closed
    have opened := Tag.Walk.tagged (read_start name attrs _) inner
    have text : (Node.element name attrs children).render ++ rest =
        "<".toList ++ name.val ++ renderAttrs attrs ++ ">".toList ++
          (renderForest children ++ ("</".toList ++ name.val ++ ">".toList ++ rest)) := by
      simp only [Node.render, List.append_assoc]
    have pieces : (Node.element name attrs children).segments ++ segments =
        .found ⟨.opening, name.val, renderAttrs attrs⟩ ::
          (segmentsOf children ++ .found ⟨.closing, name.val, []⟩ :: segments) := by
      rw [Node.segments, List.cons_append, List.append_assoc]
      rfl
    rw [text, pieces]
    exact opened

theorem walk_forest (forest : List Node) (rest : Text) (segments : List (Segment Tag))
    (ending : Option Text) (walk : Tag.Walk rest segments ending) :
    Tag.Walk (renderForest forest ++ rest) (segmentsOf forest ++ segments) ending := by
  match forest with
  | [] => exact walk
  | node :: forest =>
    rw [renderForest, segmentsOf, List.append_assoc, List.append_assoc]
    exact walk_node node _ _ ending (walk_forest forest rest segments ending walk)

end

/-! ### What the walk gives -/

theorem literal_renderAttrs (attrs : List Attr) :
    Attribute.literal (Attribute.parse (renderAttrs attrs)) = object attrs := by
  rw [parse_renderAttrs, literal_parsed]

mutual

theorem join_node (target : Text) (node : Node) :
    Segment.join (Tag.call target) node.segments = node.calls target := by
  match node with
  | .text content _ => exact Segment.join_map_plain _ content
  | .leaf name attrs => simp [Node.segments, Node.calls, Tag.call, Tag.callHead, literal_renderAttrs]
  | .element name attrs children =>
    have inner := join_forest target children
    simp [Node.segments, Node.calls, Segment.join_append, inner, Tag.call, Tag.callHead,
      literal_renderAttrs]

theorem join_forest (target : Text) (forest : List Node) :
    Segment.join (Tag.call target) (segmentsOf forest) = callForest target forest := by
  match forest with
  | [] => rfl
  | node :: forest =>
    rw [segmentsOf, callForest, Segment.join_append, join_node target node, join_forest target forest]

end

theorem tokensAt_text (content : Text) (base : Nat) : Tag.tokensAt base (content.map .plain) = [] := by
  induction content generalizing base with
  | nil => rfl
  | cons c content ih => exact ih (base + c.utf8Size)

mutual

theorem balanced_node (node : Node) (base : Nat) :
    Lowering.Balanced (Tag.tokensAt base node.segments) := by
  match node with
  | .text content _ =>
    rw [Node.segments, tokensAt_text]
    exact .nil
  | .leaf name attrs => exact .selfClosing rfl .nil
  | .element name attrs children =>
    rw [Node.segments, Tag.tokensAt, Tag.tokensAt_append]
    exact .pair rfl rfl rfl (balanced_forest children _) .nil

theorem balanced_forest (forest : List Node) (base : Nat) :
    Lowering.Balanced (Tag.tokensAt base (segmentsOf forest)) := by
  match forest with
  | [] => exact .nil
  | node :: forest =>
    rw [segmentsOf, Tag.tokensAt_append]
    exact Lowering.balanced_append _ _ (balanced_node node base) (balanced_forest forest _)

end

/-- Markup that is written from a forest is lowered to the calls of the forest. -/
theorem nested_render (target : Text) (forest : List Node)
    (small : (renderForest forest).bytes ≤ Span.maxOffset) :
    Lowering.nested target (renderForest forest) = .ok (callForest target forest) := by
  have walk := walk_forest forest [] [] none .done
  rw [List.append_nil, List.append_nil] at walk
  rw [← join_forest target forest]
  exact Lowering.nested_of_walk target _ _ small walk (balanced_forest forest 0)

def sampleForest : List Node :=
  let title : Attr := ⟨⟨"t".toList, by decide⟩, .quoted '"' "a>b".toList rfl (by simp [Attribute.isQuote]), trivial⟩
  let click : Attr := ⟨⟨"f".toList, by decide⟩, .braced "x => </p>".toList (by decide), by unfold Flat; decide⟩
  [.text "1 < 2 ".toList (by decide),
    .element ⟨"p".toList, by decide⟩ [title, click] [.leaf ⟨"br".toList, by decide⟩ []]]

theorem nested_render_sample : (renderForest sampleForest).bytes ≤ Span.maxOffset ∧
    renderForest sampleForest = "1 < 2 <p t=\"a>b\" f=\x7bx => </p>\x7d><br/></p>".toList ∧
    Lowering.nested "h".toList (renderForest sampleForest) =
      .ok "1 < 2 h('p', \x7bt: \"a>b\",f: x => </p>\x7d, h('br', null))".toList :=
  ⟨by decide, by decide, nested_render "h".toList sampleForest (by decide)⟩

end TagCalls.Markup
