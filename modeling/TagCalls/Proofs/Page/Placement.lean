import TagCalls.Proofs.Page.Emitted
import TagCalls.Proofs.Text.Offset

/-!
Where the marks and the scripts of a page come to stand. The program inserts the marks first and then looks
for the last `</body>` in the marked page. Told by offsets of the page as it was, both are insertions side by
side, since a mark neither completes such a tag nor falls into one. Main statement: `embeds_finish`.
-/
namespace TagCalls.Page

open Text (insertion)

/-! ### The page that is asked for -/

def Block.behindWord (block : Block) : Nat := block.element.start + elementWord.length

def marks (loads : List Loaded) : List (Span × Text) :=
  loads.map fun load => insertion load.block.behindWord " data-transformed=\"true\"".toList

def scripts (loads : List Loaded) : Text :=
  loads.flatMap fun load => "<script>\n".toList ++ load.code ++ "\n</script>\n".toList

/-- A page with code in it, by what is inserted into the page as it was. -/
inductive Embeds (document : Text) (loads : List Loaded) : Text → Prop
  | body {before after page : Text} {first second : List Loaded} : LastBody document before after →
      loads = first ++ second →
      Text.splice 0 document (marks first ++ insertion before.bytes (scripts loads) :: marks second) = some page →
      Embeds document loads page
  | last {marked : Text} : ¬ bodyWord <:+: Text.fold document → Text.splice 0 document (marks loads) = some marked →
      Embeds document loads
        (marked ++ (if marked = [] ∨ marked.getLast? = some '\n' then [] else ['\n']) ++ scripts loads)

theorem marks_eq (loads : List Loaded) :
    marks loads = (loads.map (·.block.behindWord)).map (insertion · Emitter.marker) := by
  have marker : Emitter.marker = " data-transformed=\"true\"".toList := by decide
  rw [marks, List.map_map, marker]
  rfl

theorem missingBreak_eq (t : Text) :
    Emitter.missingBreak t = if t = [] ∨ t.getLast? = some '\n' then [] else ['\n'] := by
  unfold Emitter.missingBreak
  cases last : t.getLast? with
  | none => simp [List.getLast?_eq_none_iff.mp last]
  | some c =>
    have nonempty : t ≠ [] := by
      intro empty
      rw [empty] at last
      cases last
    simp [nonempty]

/-! ### Marks -/

theorem mark?_eq_splice {base : Nat} {offsets : List Nat} (ascending : (base :: offsets).Pairwise (· ≤ ·)) (t : Text) :
    Emitter.mark? base offsets t = Text.splice base t (offsets.map (insertion · Emitter.marker)) := by
  induction offsets generalizing base t with
  | nil => rfl
  | cons offset offsets ih =>
    rcases List.pairwise_cons.mp ascending with ⟨below, later⟩
    have low := below offset List.mem_cons_self
    have here (behind : Text) : Text.splitAt? 0 behind = some ([], behind) := by cases behind <;> rfl
    simp only [Emitter.mark?, List.map_cons, insertion, Text.splice, low, Nat.le_refl, and_self, if_true,
      Nat.sub_self, here, ih later, Option.bind_eq_bind, Option.bind_some]

def Block.Begins (document : Text) (block : Block) : Prop :=
  ∃ front word back, document = front ++ (word ++ back) ∧ front.bytes = block.element.start ∧
    Text.fold word = elementWord

theorem begins_of_located {type document : Text} {blocks : List Block} {block : Block}
    (small : document.bytes ≤ Span.maxOffset) (located : locate type document = .ok blocks)
    (member : block ∈ blocks) : block.Begins document := by
  rcases spans_of_located small located member with ⟨before, parts, rest, number, split, stands, rfl⟩
  refine ⟨before, parts.word, parts.inner ++ '>' :: (parts.content ++ parts.closing) ++ rest, ?_, rfl, stands.word⟩
  rw [split, Parts.text, List.append_assoc parts.word]

theorem bytes_elementWord {word : Text} (folded : Text.fold word = elementWord) : word.bytes = elementWord.length := by
  rw [← Text.bytes_fold, folded]
  rfl

theorem between_of_begins {document : Text} {block : Block} (begins : block.Begins document) :
    Text.Between 0 document block.behindWord := by
  rcases begins with ⟨front, word, back, rfl, start, folded⟩
  refine ⟨front ++ word, back, by rw [List.append_assoc], ?_⟩
  rw [Nat.zero_add, Text.bytes_append, start, bytes_elementWord folded, Block.behindWord]

theorem behindWord_outside {before body rest : Text} {block : Block}
    (begins : block.Begins (before ++ (body ++ rest))) (folded : Text.fold body = bodyWord)
    (behind : before.bytes < block.behindWord) : before.bytes + body.bytes ≤ block.behindWord := by
  -- No mark falls into a body tag: the tag would begin inside the word before the mark, which has only one `<`.
  rcases begins with ⟨front, word, back, split, start, named⟩
  have level : body.bytes = word.bytes := by
    rw [bytes_elementWord named, ← Text.bytes_fold, folded]
    rfl
  have size := bytes_elementWord named
  rw [Block.behindWord, ← start, ← size] at behind ⊢
  by_cases order : before.bytes ≤ front.bytes
  · omega
  · exfalso
    rcases Text.append_eq_append_of_bytes_le split.symm (by omega) with ⟨gap, rfl, cut⟩
    rw [Text.bytes_append] at behind order
    rcases Text.append_eq_append_of_bytes_le cut.symm (by omega) with ⟨more, rfl, tail⟩
    rw [Text.bytes_append] at behind
    rcases word_eq named with ⟨letters, same, _, lone⟩
    rcases body_eq folded with ⟨others, rfl, _⟩
    cases gap with
    | nil => exact order (Nat.le_refl _)
    | cons c gap =>
      cases more with
      | nil =>
        rw [Text.bytes] at behind
        omega
      | cons d more =>
        rcases List.cons.inj tail with ⟨rfl, _⟩
        rcases List.cons.inj same with ⟨_, rfl⟩
        exact lone (List.mem_append_right gap List.mem_cons_self)

/-! ### Scripts -/

theorem split_ascending {loads : List Loaded} (limit : Nat)
    (ascending : (loads.map (·.block.behindWord)).Pairwise (· ≤ ·)) :
    ∃ first second, loads = first ++ second ∧ (∀ load ∈ first, load.block.behindWord ≤ limit) ∧
      ∀ load ∈ second, limit < load.block.behindWord := by
  induction loads with
  | nil => exact ⟨[], [], rfl, by simp, by simp⟩
  | cons load loads ih =>
    rcases List.pairwise_cons.mp ascending with ⟨below, later⟩
    by_cases low : load.block.behindWord ≤ limit
    · rcases ih later with ⟨first, second, rfl, before, behind⟩
      exact ⟨load :: first, second, rfl, List.forall_mem_cons.mpr ⟨low, before⟩, behind⟩
    · refine ⟨[], load :: loads, rfl, by simp, List.forall_mem_cons.mpr ⟨Nat.lt_of_not_le low, ?_⟩⟩
      intro other member
      have order : load.block.behindWord ≤ other.block.behindWord := below _ (List.mem_map_of_mem member)
      omega

section
variable {document : Text} {loads : List Loaded}

theorem splice_marks {base : Nat} (low : ∀ load ∈ loads, base ≤ load.block.behindWord)
    (ascending : (loads.map (·.block.behindWord)).Pairwise (· ≤ ·))
    (between : ∀ load ∈ loads, Text.Between base document load.block.behindWord) :
    ∃ out, Text.splice base document (marks loads) = some out := by
  rw [marks_eq]
  apply Text.splice_insertions
  · exact List.pairwise_cons.mpr ⟨List.forall_mem_map.mpr low, ascending⟩
  · exact List.forall_mem_map.mpr between

theorem body_of_splice {base : Nat} {out : Text} (low : ∀ load ∈ loads, base ≤ load.block.behindWord)
    (ascending : (loads.map (·.block.behindWord)).Pairwise (· ≤ ·))
    (spliced : Text.splice base document (marks loads) = some out) (inside : bodyWord <:+: Text.fold out) :
    bodyWord <:+: Text.fold document := by
  rw [marks_eq, ← mark?_eq_splice (List.pairwise_cons.mpr ⟨List.forall_mem_map.mpr low, ascending⟩)] at spliced
  exact body_of_mark? spliced inside

theorem lastBody_spliced {before body rest back : Text} (folded : Text.fold body = bodyWord)
    (once : ¬ bodyWord <:+: Text.fold (body ++ rest).tail)
    (outside : ∀ load ∈ loads, before.bytes + body.bytes ≤ load.block.behindWord)
    (ascending : (loads.map (·.block.behindWord)).Pairwise (· ≤ ·))
    (spliced : Text.splice (before.bytes + body.bytes) rest (marks loads) = some back) (front : Text) :
    LastBody (front ++ (body ++ back)) front (body ++ back) := by
  refine ⟨rfl, Text.prefix_fold_append folded back, ?_⟩
  intro again
  rcases body_eq folded with ⟨letters, rfl, _⟩
  rw [Text.bytes, ← Nat.add_assoc] at spliced outside
  have low : ∀ load ∈ loads, before.bytes + '<'.utf8Size ≤ load.block.behindWord :=
    fun load member => Nat.le_trans (Nat.le_add_right _ _) (outside load member)
  exact once (body_of_splice low ascending (Text.splice_skip spliced) again)

theorem embeds_body {before after : Text} (last : LastBody document before after)
    (ascending : (loads.map (·.block.behindWord)).Pairwise (· ≤ ·))
    (begun : ∀ load ∈ loads, load.block.Begins document) :
    ∃ marked, Text.splice 0 document (marks loads) = some marked ∧
      Embeds document loads (Emitter.insertScripts (scripts loads) marked) := by
  have tag := last
  rcases tag with ⟨rfl, begins, once⟩
  rcases Text.prefix_fold begins with ⟨body, rest, rfl, folded⟩
  -- The offsets tell which marks stand before the tag; the others then stand behind all of it.
  rcases split_ascending before.bytes ascending with ⟨first, second, rfl, ahead, behind⟩
  rw [List.map_append, List.pairwise_append] at ascending
  rcases ascending with ⟨firstAscending, secondAscending, _⟩
  have outside : ∀ load ∈ second, before.bytes + body.bytes ≤ load.block.behindWord := by
    intro load member
    exact behindWord_outside (begun load (List.mem_append_right _ member)) folded (behind load member)
  have firstBetween : ∀ load ∈ first, Text.Between 0 before load.block.behindWord := by
    intro load member
    apply Text.between_left (between_of_begins (begun load (List.mem_append_left _ member)))
    rw [Nat.zero_add]
    exact ahead load member
  have secondBetween : ∀ load ∈ second, Text.Between (before.bytes + body.bytes) rest load.block.behindWord := by
    intro load member
    have between := between_of_begins (begun load (List.mem_append_right _ member))
    rw [← List.append_assoc] at between
    have right := Text.between_right between
    rw [Nat.zero_add, Text.bytes_append] at right
    exact right (outside load member)
  obtain ⟨front, frontSpliced⟩ := splice_marks (fun _ _ => Nat.zero_le _) firstAscending firstBetween
  obtain ⟨back, backSpliced⟩ := splice_marks outside secondAscending secondBetween
  have tagged : Text.splice before.bytes (body ++ rest) (marks second) = some (body ++ back) :=
    Text.splice_skip backSpliced
  have whole : Text.splice 0 (before ++ (body ++ rest)) (marks (first ++ second)) = some (front ++ (body ++ back)) := by
    rw [marks, List.map_append]
    exact Text.splice_append frontSpliced (by rw [Nat.zero_add]; exact tagged)
  refine ⟨_, whole, .body last rfl ?_⟩
  rw [insertScripts_body (lastBody_spliced folded once outside secondAscending backSpliced front), List.append_assoc]
  apply Text.splice_append frontSpliced
  rw [Nat.zero_add]
  exact Text.splice_insertion tagged

theorem embeds_last (absent : ¬ bodyWord <:+: Text.fold document)
    (ascending : (loads.map (·.block.behindWord)).Pairwise (· ≤ ·))
    (begun : ∀ load ∈ loads, load.block.Begins document) :
    ∃ marked, Text.splice 0 document (marks loads) = some marked ∧
      Embeds document loads (Emitter.insertScripts (scripts loads) marked) := by
  have low : ∀ load ∈ loads, 0 ≤ load.block.behindWord := fun _ _ => Nat.zero_le _
  obtain ⟨marked, spliced⟩ := splice_marks low ascending fun load member => between_of_begins (begun load member)
  refine ⟨marked, spliced, ?_⟩
  rw [insertScripts_end fun inside => absent (body_of_splice low ascending spliced inside), missingBreak_eq]
  exact .last absent spliced

end

theorem embeds_finish {type document : Text} {blocks : List Block} {emitter : Emitter}
    (small : document.bytes ≤ Span.maxOffset) (located : locate type document = .ok blocks)
    (holds : emitter.Holds blocks) (ascending : blocks.Pairwise Block.Before) :
    ∃ page, emitter.finish? document = some page ∧ Embeds document emitter.inPageOrder page := by
  have increasing : (emitter.inPageOrder.map (·.block.behindWord)).Pairwise (· ≤ ·) := by
    apply List.pairwise_map.mpr
    apply (Emitter.inPageOrder_pairwise holds ascending).imp
    intro first second order
    exact Nat.add_le_add_right (Nat.le_of_lt order) _
  have begun : ∀ load ∈ emitter.inPageOrder, load.block.Begins document := by
    intro load member
    exact begins_of_located small located (holds.known load (emitter.inPageOrder_perm.mem_iff.mp member))
  have embeds : ∃ marked, Text.splice 0 document (marks emitter.inPageOrder) = some marked ∧
      Embeds document emitter.inPageOrder (Emitter.insertScripts (scripts emitter.inPageOrder) marked) := by
    cases found : Text.splitLastFolded? bodyWord document with
    | some cut => exact embeds_body ((lastBody_iff document cut.1 cut.2).mp found) increasing begun
    | none => exact embeds_last (Text.splitLastFolded?_eq_none_iff.mp found) increasing begun
  obtain ⟨marked, spliced, placed⟩ := embeds
  have ordered : (0 :: emitter.inPageOrder.map (·.block.behindWord)).Pairwise (· ≤ ·) :=
    List.pairwise_cons.mpr ⟨fun _ _ => Nat.zero_le _, increasing⟩
  rw [marks_eq, ← mark?_eq_splice ordered] at spliced
  refine ⟨_, ?_, placed⟩
  have offsets : emitter.inPageOrder.map (·.block.element.start + elementWord.length) =
      emitter.inPageOrder.map (·.block.behindWord) := rfl
  simp only [Emitter.finish?, offsets, spliced]
  rfl

end TagCalls.Page
