import Mathlib.Data.List.Basic
import TagCalls.Proofs.Workspace.Tree
import TagCalls.Workspace.Source

/-!
The components of paths that are joined, seen from a directory or given another extension. Slashes and
dots that are no components may stand anywhere in a path; what the operations do to the text is told by
what they do to the components and to the place.
-/
namespace TagCalls.Path

def Component (name : Text) : Prop := name ≠ [] ∧ '/' ∉ name ∧ name ≠ ['.']

def Proper (name : Text) : Prop := Component name ∧ name ≠ "..".toList

instance : DecidablePred Component := fun name =>
  inferInstanceAs (Decidable (name ≠ [] ∧ '/' ∉ name ∧ name ≠ ['.']))

instance : DecidablePred Proper := fun name =>
  inferInstanceAs (Decidable (Component name ∧ name ≠ "..".toList))

def below (directory : Path) (names : List Text) : Path := names.foldl join directory

def Ended (tail : Text) : Prop := tail = [] ∨ ∃ rest, tail = '/' :: rest

/-! ### Pieces, steps and components -/

theorem pieces_ne_nil (t : Text) : pieces t ≠ [] := by
  cases t with
  | nil => exact List.cons_ne_nil _ _
  | cons c t =>
    rw [pieces]
    split
    · exact List.cons_ne_nil _ _
    · split <;> exact List.cons_ne_nil _ _

theorem pieces_append (a b : Text) : pieces (a ++ '/' :: b) = pieces a ++ pieces b := by
  induction a with
  | nil => rfl
  | cons c a ih =>
    rw [List.cons_append, pieces, pieces, ih]
    by_cases slash : isSlash c = true
    · rw [if_pos slash, if_pos slash, List.cons_append]
    · rw [if_neg slash, if_neg slash]
      cases shape : pieces a with
      | nil => exact absurd shape (pieces_ne_nil a)
      | cons piece rest => rfl

theorem pieces_of_slashless {t : Text} (slashless : '/' ∉ t) : pieces t = [t] := by
  induction t with
  | nil => rfl
  | cons c t ih =>
    have other : isSlash c = false := by
      simp only [isSlash, beq_eq_false_iff_ne]
      exact fun same => slashless (same ▸ List.mem_cons_self)
    rw [pieces, other, ih fun inside => slashless (List.mem_cons_of_mem c inside)]
    rfl

theorem steps_append (a b : Text) : steps (a ++ '/' :: b) = steps a ++ steps b := by
  rw [steps, pieces_append, List.filter_append]
  rfl

theorem components_append (a b : Text) : components (a ++ '/' :: b) = components a ++ components b := by
  rw [components, steps_append, List.filter_append]
  rfl

theorem steps_of_component {name : Text} (component : Component name) : steps name = [name] := by
  rw [steps, pieces_of_slashless component.2.1]
  exact List.filter_cons_of_pos (by simpa using component.1)

theorem components_of_component {name : Text} (component : Component name) : components name = [name] := by
  rw [components, steps_of_component component]
  exact List.filter_cons_of_pos (by simpa using component.2.2)

theorem slashless_of_mem_pieces {t piece : Text} (member : piece ∈ pieces t) : '/' ∉ piece := by
  induction t generalizing piece with
  | nil =>
    rw [List.mem_singleton.mp member]
    exact List.not_mem_nil
  | cons c t ih =>
    rw [pieces] at member
    by_cases slash : isSlash c = true
    · rw [if_pos slash] at member
      rcases List.mem_cons.mp member with rfl | later
      · exact List.not_mem_nil
      · exact ih later
    · rw [if_neg slash] at member
      have other : '/' ≠ c := fun same => slash (same ▸ rfl)
      cases shape : pieces t with
      | nil => exact absurd shape (pieces_ne_nil t)
      | cons first rest =>
        rw [shape] at member ih
        rcases List.mem_cons.mp member with rfl | later
        · have inner := ih List.mem_cons_self
          simp [other, inner]
        · exact ih (List.mem_cons_of_mem first later)

theorem component_of_mem {path : Path} {name : Text} (member : name ∈ components path) : Component name := by
  obtain ⟨step, dotless⟩ := List.mem_filter.mp member
  obtain ⟨piece, filled⟩ := List.mem_filter.mp step
  exact ⟨of_decide_eq_true filled, slashless_of_mem_pieces piece, of_decide_eq_true dotless⟩

theorem components_slash (path : Text) : components (path ++ ['/']) = components path := by
  rw [components_append]
  exact List.append_nil _

theorem components_front {front name : Text} (behind : front = [] ∨ front.getLast? = some '/')
    (component : Component name) : components (front ++ name) = components front ++ [name] := by
  rcases behind with rfl | slash
  · exact components_of_component component
  · obtain ⟨head, rfl⟩ := List.getLast?_eq_some_iff.mp slash
    rw [List.append_assoc, List.singleton_append, components_append, components_slash,
      components_of_component component]

theorem place_eq_components (path : Path) : path.place = path.components.foldl Tree.step [] :=
  (Tree.foldl_step_filter [] path.steps).symm

theorem step_of_proper {name : Text} (here : Location) (proper : Proper name) :
    Tree.step here name = here ++ [name] := by
  have dotless : name ≠ ".".toList := proper.1.2.2
  rw [Tree.step, if_neg dotless, if_neg proper.2]

theorem foldl_step_of_proper (here : Location) {names : List Text} (proper : ∀ name ∈ names, Proper name) :
    names.foldl Tree.step here = here ++ names := by
  induction names generalizing here with
  | nil => exact (List.append_nil here).symm
  | cons name names ih =>
    obtain ⟨first, rest⟩ := List.forall_mem_cons.mp proper
    rw [List.foldl_cons, step_of_proper here first, ih _ rest, List.append_assoc]
    rfl

theorem place_of_proper {path : Path} (proper : ∀ name ∈ components path, Proper name) :
    path.place = components path := by
  rw [place_eq_components, foldl_step_of_proper [] proper]
  rfl

theorem prefix_of_mem_along {here location : Location} {names : List Text} (proper : ∀ name ∈ names, Proper name)
    (member : location ∈ Tree.along here names) : location <+: here ++ names := by
  induction names generalizing here with
  | nil =>
    have same : location = here := List.mem_singleton.mp member
    exact ⟨[], by rw [same]⟩
  | cons name names ih =>
    obtain ⟨first, rest⟩ := List.forall_mem_cons.mp proper
    rw [Tree.along, step_of_proper here first] at member
    rcases List.mem_cons.mp member with rfl | later
    · exact List.prefix_append _ _
    · have inner := ih rest later
      rw [List.append_assoc] at inner
      exact inner

theorem prefix_of_mem_way {path : Path} {location : Location} (proper : ∀ name ∈ components path, Proper name)
    (member : location ∈ path.way) : location <+: path.place.dropLast := by
  rw [place_of_proper proper]
  exact prefix_of_mem_along (fun name inside => proper name (List.dropLast_subset _ inside)) member

/-! ### Joining -/

section
variable {directory path : Path} {names : List Text} {name : Text}

theorem not_absolute_of_component (component : Component name) : isAbsolute name = false := by
  cases name with
  | nil => rfl
  | cons c t =>
    simp only [isAbsolute, List.head?_cons, beq_eq_false_iff_ne, ne_eq, Option.some.injEq]
    exact fun same => component.2.1 (same ▸ List.mem_cons_self)

theorem join_eq (relative : path.isAbsolute = false) (nonempty : directory ≠ []) :
    ∃ front, directory.join path = front ++ '/' :: path ∧ (directory = front ∨ directory = front ++ ['/']) := by
  rw [join, relative, if_neg Bool.false_ne_true]
  split
  · next empty => exact absurd (List.getLast?_eq_none_iff.mp empty) nonempty
  · next slash =>
    obtain ⟨front, rfl⟩ := List.getLast?_eq_some_iff.mp slash
    exact ⟨front, by simp, .inr rfl⟩
  · exact ⟨directory, rfl, .inl rfl⟩

theorem join_ne_nil (relative : path.isAbsolute = false) (nonempty : directory ≠ []) :
    directory.join path ≠ [] := by
  obtain ⟨front, joined, _⟩ := join_eq relative nonempty
  rw [joined]
  simp

theorem ne_nil_of_absolute (absolute : path.isAbsolute = true) : path ≠ [] := by
  rintro rfl
  cases absolute

theorem absolute_join (absolute : directory.isAbsolute = true) (path : Path) :
    (directory.join path).isAbsolute = true := by
  have front : ∀ tail, isAbsolute (directory ++ tail) = true := by
    intro tail
    rw [isAbsolute, List.head?_append_of_ne_nil directory (ne_nil_of_absolute absolute)]
    exact absolute
  rw [join]
  split
  · assumption
  · split
    · next empty => exact absurd (List.getLast?_eq_none_iff.mp empty) (ne_nil_of_absolute absolute)
    · exact front _
    · exact front _

theorem absolute_below (absolute : directory.isAbsolute = true) : (below directory names).isAbsolute = true := by
  induction names generalizing directory with
  | nil => exact absolute
  | cons name names ih => exact ih (absolute_join absolute name)

theorem steps_join (relative : path.isAbsolute = false) (nonempty : directory ≠ []) :
    steps (directory.join path) = steps directory ++ steps path := by
  obtain ⟨front, joined, rfl | rfl⟩ := join_eq relative nonempty
  · rw [joined, steps_append]
  · rw [joined, steps_append, steps_append]
    exact congrArg (· ++ steps path) (List.append_nil (steps front)).symm

theorem components_join (relative : path.isAbsolute = false) (nonempty : directory ≠ []) :
    components (directory.join path) = components directory ++ components path := by
  rw [components, steps_join relative nonempty, List.filter_append]
  rfl

theorem steps_below (nonempty : directory ≠ []) (proper : ∀ name ∈ names, Proper name) :
    steps (below directory names) = steps directory ++ names := by
  induction names generalizing directory with
  | nil => exact (List.append_nil _).symm
  | cons name names ih =>
    obtain ⟨first, rest⟩ := List.forall_mem_cons.mp proper
    have relative := not_absolute_of_component first.1
    rw [below, List.foldl_cons, ← below, ih (join_ne_nil relative nonempty) rest, steps_join relative nonempty,
      steps_of_component first.1, List.append_assoc]
    rfl

theorem filter_of_proper (proper : ∀ name ∈ names, Proper name) : names.filter (· ≠ ['.']) = names :=
  List.filter_eq_self.mpr fun name member => by simpa using (proper name member).1.2.2

theorem components_below (nonempty : directory ≠ []) (proper : ∀ name ∈ names, Proper name) :
    components (below directory names) = components directory ++ names := by
  rw [components, steps_below nonempty proper, List.filter_append, filter_of_proper proper]
  rfl

theorem place_below (nonempty : directory ≠ []) (proper : ∀ name ∈ names, Proper name) :
    (below directory names).place = directory.place ++ names := by
  rw [place, steps_below nonempty proper, List.foldl_append, foldl_step_of_proper _ proper]
  rfl

/-! ### The text of joined names -/

theorem below_snoc (directory : Path) (names : List Text) (name : Text) :
    below directory (names ++ [name]) = (below directory names).join name := by
  rw [below, List.foldl_append]
  rfl

theorem join_nil (relative : path.isAbsolute = false) : join [] path = path := by
  rw [join, relative]
  rfl

theorem join_append {middle tail : Text} (filled : middle ≠ []) :
    directory.join (middle ++ tail) = directory.join middle ++ tail := by
  have first : isAbsolute (middle ++ tail) = isAbsolute middle := by
    rw [isAbsolute, isAbsolute, List.head?_append_of_ne_nil middle filled]
  rw [join, join, first]
  split
  · rfl
  · split <;> simp

theorem slashless_last {name : Text} (component : Component name) : name.getLast? ≠ some '/' := by
  intro slash
  exact component.2.1 (List.mem_of_getLast? slash)

theorem getLast?_join (relative : path.isAbsolute = false) (filled : path ≠ []) :
    (directory.join path).getLast? = path.getLast? := by
  rw [join, relative, if_neg Bool.false_ne_true]
  split
  · rfl
  · exact List.getLast?_append_of_ne_nil _ filled
  · rw [List.getLast?_append_of_ne_nil _ (List.cons_ne_nil _ _), List.getLast?_cons_of_ne_nil filled]

theorem open_join (directory : Path) (proper : Proper name) : (directory.join name).getLast? ≠ some '/' := by
  rw [getLast?_join (not_absolute_of_component proper.1) proper.1.1]
  exact slashless_last proper.1

theorem below_eq_append (nonempty : directory ≠ []) (open_ : directory.getLast? ≠ some '/')
    (proper : ∀ name ∈ names, Proper name) :
    below directory names = directory ++ names.flatMap ('/' :: ·) := by
  induction names generalizing directory with
  | nil => exact (List.append_nil _).symm
  | cons name names ih =>
    obtain ⟨first, rest⟩ := List.forall_mem_cons.mp proper
    have relative := not_absolute_of_component first.1
    have joined : directory.join name = directory ++ '/' :: name := by
      obtain ⟨front, joined, rfl | rfl⟩ := join_eq relative nonempty
      · exact joined
      · exact absurd List.getLast?_concat open_
    rw [below, List.foldl_cons, ← below, ih (join_ne_nil relative nonempty) (open_join directory first) rest, joined,
      List.flatMap_cons, List.append_assoc]

theorem below_cons (proper : ∀ other ∈ name :: names, Proper other) :
    below [] (name :: names) = name ++ names.flatMap ('/' :: ·) := by
  obtain ⟨first, rest⟩ := List.forall_mem_cons.mp proper
  rw [below, List.foldl_cons, join_nil (not_absolute_of_component first.1)]
  exact below_eq_append first.1.1 (slashless_last first.1) rest

theorem components_names (proper : ∀ name ∈ names, Proper name) : components (below [] names) = names := by
  cases names with
  | nil => rfl
  | cons name names =>
    obtain ⟨first, rest⟩ := List.forall_mem_cons.mp proper
    rw [below, List.foldl_cons, join_nil (not_absolute_of_component first.1), ← below,
      components_below first.1.1 rest, components_of_component first.1]
    rfl

theorem not_absolute_names (proper : ∀ name ∈ names, Proper name) : (below [] names).isAbsolute = false := by
  cases names with
  | nil => rfl
  | cons name names =>
    have first := proper name List.mem_cons_self
    rw [below_cons proper, isAbsolute, List.head?_append_of_ne_nil name first.1.1]
    exact not_absolute_of_component first.1

theorem join_below (nonempty : directory ≠ []) (filled : names ≠ []) (proper : ∀ name ∈ names, Proper name) :
    directory.join (below [] names) = below directory names := by
  cases names with
  | nil => exact absurd rfl filled
  | cons name names =>
    obtain ⟨first, rest⟩ := List.forall_mem_cons.mp proper
    have filled := join_ne_nil (not_absolute_of_component first.1) nonempty
    rw [below_cons proper, join_append first.1.1, below, List.foldl_cons]
    exact (below_eq_append filled (open_join directory first) rest).symm

/-! ### A path as seen from a directory -/

theorem component_heads (component : Component name) (tail : Text) :
    (∀ t, name ++ tail ≠ '/' :: t) ∧ (∀ t, name ++ tail ≠ '.' :: '/' :: t) ∧ name ++ tail ≠ ['.'] := by
  obtain ⟨filled, slashless, dotless⟩ := component
  cases name with
  | nil => exact absurd rfl filled
  | cons c rest =>
    have other : c ≠ '/' := fun same => slashless (same ▸ List.mem_cons_self)
    refine ⟨?_, ?_, ?_⟩
    · intro t same
      exact other (List.cons.inj same).1
    · intro t same
      obtain ⟨rfl, second⟩ := List.cons.inj same
      cases rest with
      | nil => exact dotless rfl
      | cons d rest =>
        have slash : d = '/' := (List.cons.inj second).1
        exact slashless (slash ▸ List.mem_cons_of_mem _ List.mem_cons_self)
    · intro same
      obtain ⟨rfl, second⟩ := List.cons.inj same
      obtain ⟨rfl, _⟩ := List.append_eq_nil_iff.mp second
      exact dotless rfl

theorem skipLeft_of_component (component : Component name) (tail : Text) :
    skipLeft (name ++ tail) = name ++ tail := by
  obtain ⟨slash, dotSlash, dot⟩ := component_heads component tail
  exact skipLeft.eq_4 _ slash dotSlash dot

theorem skipRight_of_component (component : Component name) (tail : Text) :
    skipRight (name ++ tail) = name ++ tail := by
  obtain ⟨slash, dotSlash, _⟩ := component_heads component tail
  exact skipRight.eq_3 _ slash dotSlash

theorem dropComponents?_slash (components : List Text) (path : Path) :
    dropComponents? components ('/' :: path) = dropComponents? components path := by
  cases components <;> rfl

theorem dropComponents?_dot (components : List Text) (path : Path) :
    dropComponents? components ('.' :: '/' :: path) = dropComponents? components path := by
  cases components <;> rfl

theorem takeWhile_component {tail : Text} (component : Component name) (ended : Ended tail) :
    (name ++ tail).takeWhile (!isSlash ·) = name ∧ (name ++ tail).dropWhile (!isSlash ·) = tail := by
  have plain : ∀ c ∈ name, (!isSlash c) = true := by
    intro c member
    simp only [isSlash, Bool.not_eq_true', beq_eq_false_iff_ne]
    exact fun same => component.2.1 (same ▸ member)
  rw [List.takeWhile_append_of_pos plain, List.dropWhile_append_of_pos plain]
  rcases ended with rfl | ⟨rest, rfl⟩
  · simp
  · simp [isSlash]

theorem split_slash (t : Text) : ∃ name tail, t = name ++ tail ∧ '/' ∉ name ∧ Ended tail := by
  induction t with
  | nil => exact ⟨[], [], rfl, List.not_mem_nil, .inl rfl⟩
  | cons c t ih =>
    by_cases slash : c = '/'
    · subst slash
      exact ⟨[], '/' :: t, rfl, List.not_mem_nil, .inr ⟨t, rfl⟩⟩
    · obtain ⟨name, tail, rfl, slashless, ended⟩ := ih
      refine ⟨c :: name, tail, rfl, ?_, ended⟩
      intro member
      rcases List.mem_cons.mp member with same | later
      · exact slash same.symm
      · exact slashless later

theorem components_cons_slash (t : Text) : components ('/' :: t) = components t := components_append [] t

theorem components_dot_slash (t : Text) : components ('.' :: '/' :: t) = components t := components_append ['.'] t

theorem dropComponents?_component {components : List Text} {tail : Text} (component : Component name)
    (ended : Ended tail) :
    dropComponents? (name :: components) (name ++ tail) = dropComponents? components tail := by
  obtain ⟨taken, left⟩ := takeWhile_component component ended
  have filled : name ++ tail ≠ [] := by simp [component.1]
  rw [dropComponents?, skipLeft_of_component component tail, if_pos ⟨filled, taken⟩, left]

theorem dropComponents?_append {tail : Text} (ended : Ended tail) (directory : Path) :
    dropComponents? (components directory) (directory ++ tail) = some (skipLeft tail) := by
  -- by length, because a component goes away as a whole
  induction size : directory.length using Nat.strong_induction_on generalizing directory with
  | _ size ih =>
    obtain ⟨name, rest, rfl, slashless, shapes⟩ := split_slash directory
    have further : ∀ next, rest = '/' :: next →
        dropComponents? (components next) (next ++ tail) = some (skipLeft tail) := by
      intro next shape
      refine ih next.length ?_ next rfl
      rw [← size, shape, List.length_append, List.length_cons]
      omega
    by_cases empty : name = []
    · subst empty
      rcases shapes with rfl | ⟨next, rfl⟩
      · rfl
      · rw [List.nil_append, components_cons_slash, List.cons_append, dropComponents?_slash]
        exact further next rfl
    by_cases dot : name = ['.']
    · subst dot
      rcases shapes with rfl | ⟨next, rfl⟩
      · rcases ended with rfl | ⟨rest, rfl⟩
        · rfl
        · rfl
      · rw [List.singleton_append, components_dot_slash, List.cons_append, List.cons_append, dropComponents?_dot]
        exact further next rfl
    have component : Component name := ⟨empty, slashless, dot⟩
    rcases shapes with rfl | ⟨next, rfl⟩
    · rw [List.append_nil, components_of_component component, dropComponents?_component component ended]
      rfl
    · rw [components_append, components_of_component component, List.singleton_append, List.append_assoc,
        List.cons_append, dropComponents?_component component (.inr ⟨_, rfl⟩), dropComponents?_slash]
      exact further next rfl

theorem components_skipLeft (path : Path) : components (skipLeft path) = components path := by
  fun_induction skipLeft path with
  | case1 t ih => rw [ih, components_cons_slash]
  | case2 t ih => rw [ih, components_dot_slash]
  | case3 => rfl
  | case4 t => rfl

theorem skipLeft_tight (path : Path) :
    (∀ rest, skipLeft path ≠ '/' :: rest) ∧ (∀ rest, skipLeft path ≠ '.' :: '/' :: rest) ∧
      skipLeft path ≠ ['.'] := by
  fun_induction skipLeft path with
  | case1 t ih => exact ih
  | case2 t ih => exact ih
  | case3 => exact ⟨nofun, nofun, nofun⟩
  | case4 t slash dotSlash dot => exact ⟨slash, dotSlash, dot⟩

theorem component_of_heads {t : Text} (filled : t ≠ []) (slash : ∀ rest, t ≠ '/' :: rest)
    (dotSlash : ∀ rest, t ≠ '.' :: '/' :: rest) (dot : t ≠ ['.']) :
    ∃ name tail, t = name ++ tail ∧ Component name ∧ Ended tail := by
  obtain ⟨name, tail, rfl, slashless, ended⟩ := split_slash t
  refine ⟨name, tail, rfl, ⟨?_, slashless, ?_⟩, ended⟩
  · rintro rfl
    rcases ended with rfl | ⟨rest, rfl⟩
    · exact filled rfl
    · exact slash rest rfl
  · rintro rfl
    rcases ended with rfl | ⟨rest, rfl⟩
    · exact dot rfl
    · exact dotSlash rest rfl

theorem components_cons {tail : Text} (component : Component name) (ended : Ended tail) :
    components (name ++ tail) = name :: components tail := by
  rcases ended with rfl | ⟨rest, rfl⟩
  · rw [List.append_nil, components_of_component component]
    rfl
  · rw [components_append, components_of_component component, components_cons_slash]
    rfl

theorem components_of_dropComponents? {first : List Text} {rest : Path}
    (dropped : dropComponents? first path = some rest) : components path = first ++ components rest := by
  induction first generalizing path with
  | nil =>
    obtain rfl := Option.some.inj dropped
    exact (components_skipLeft path).symm
  | cons name first ih =>
    rw [dropComponents?] at dropped
    split at dropped
    · next matched =>
      obtain ⟨slash, dotSlash, dot⟩ := skipLeft_tight path
      obtain ⟨word, tail, text, component, ended⟩ := component_of_heads matched.1 slash dotSlash dot
      obtain ⟨taken, left⟩ := takeWhile_component component ended
      rw [text] at matched dropped
      rw [left] at dropped
      obtain rfl : word = name := taken.symm.trans matched.2
      rw [← components_skipLeft path, text, components_cons component ended, ih dropped, List.cons_append]
    · cases dropped

theorem component_reverse (component : Component name) : Component name.reverse := by
  refine ⟨by simpa using component.1, by simpa using component.2.1, ?_⟩
  intro dot
  apply component.2.2
  rw [← List.reverse_reverse name, dot]
  rfl

theorem trimRight_of_component (component : Component name) (front : Text) :
    trimRight (front ++ name) = front ++ name := by
  rw [trimRight, List.reverse_append, skipRight_of_component (component_reverse component), List.reverse_append,
    List.reverse_reverse, List.reverse_reverse]

theorem exists_front_join (directory : Path) (relative : path.isAbsolute = false) :
    ∃ front, directory.join path = front ++ path := by
  rw [join, relative, if_neg Bool.false_ne_true]
  split
  · exact ⟨[], rfl⟩
  · exact ⟨directory, rfl⟩
  · exact ⟨directory ++ ['/'], by simp⟩

theorem trimRight_below (filled : names ≠ []) (proper : ∀ name ∈ names, Proper name) :
    trimRight (below directory names) = below directory names := by
  obtain ⟨front, last, rfl⟩ := (List.eq_nil_or_concat names).resolve_left filled
  have component := (proper last (by simp)).1
  obtain ⟨head, joined⟩ := exists_front_join (below directory front) (not_absolute_of_component component)
  rw [List.concat_eq_append, below_snoc, joined]
  exact trimRight_of_component component head

theorem relative?_below (absolute : directory.isAbsolute = true) (proper : ∀ name ∈ names, Proper name) :
    relative? directory (below directory names) = some (below [] names) := by
  have nonempty := ne_nil_of_absolute absolute
  cases names with
  | nil =>
    have whole := dropComponents?_append (.inl rfl) directory
    rw [List.append_nil] at whole
    rw [below, List.foldl_nil, relative?, absolute, whole]
    rfl
  | cons name rest =>
    have first := proper name List.mem_cons_self
    have text := below_cons proper
    have relative := not_absolute_names proper
    have inner : skipLeft ('/' :: below [] (name :: rest)) = below [] (name :: rest) := by
      rw [skipLeft, text, skipLeft_of_component first.1]
    obtain ⟨front, joined, shape⟩ := join_eq relative nonempty
    have same : components directory = components front := by
      rcases shape with rfl | rfl
      · rfl
      · exact components_slash front
    have filled := List.cons_ne_nil name rest
    rw [relative?, absolute, absolute_below absolute, ← join_below nonempty filled proper, joined, same,
      dropComponents?_append (.inr ⟨_, rfl⟩), inner]
    exact congrArg some (trimRight_below filled proper)

theorem components_trimRight (path : Path) : components path.trimRight = components path := by
  have backwards : ∀ t : Text, components (skipRight t).reverse = components t.reverse := by
    intro t
    fun_induction skipRight t with
    | case1 t ih => rw [ih, List.reverse_cons, components_slash]
    | case2 t ih =>
      have dot : ('.' :: '/' :: t).reverse = t.reverse ++ '/' :: ['.'] := by simp
      rw [ih, dot, components_append]
      exact (List.append_nil _).symm
    | case3 t => rfl
  rw [trimRight, backwards, List.reverse_reverse]

theorem components_of_relative? {rest : Path} (seen : relative? directory path = some rest) :
    components path = components directory ++ components rest := by
  rw [relative?] at seen
  split at seen
  · obtain ⟨behind, dropped, rfl⟩ := Option.map_eq_some_iff.mp seen
    rw [components_trimRight]
    exact components_of_dropComponents? dropped
  · cases seen

/-! ### Another extension -/

theorem skipRight_tight (t : Text) :
    (∀ rest, skipRight t ≠ '/' :: rest) ∧ ∀ rest, skipRight t ≠ '.' :: '/' :: rest := by
  fun_induction skipRight t with
  | case1 t ih => exact ih
  | case2 t ih => exact ih
  | case3 t slash dotSlash => exact ⟨slash, dotSlash⟩

theorem trimRight_eq (last : (components path).getLast? = some name) :
    ∃ front, path.trimRight = front ++ name ∧ (front = [] ∨ front.getLast? = some '/') ∧
      components front = (components path).dropLast ∧ Component name := by
  have whole := components_trimRight path
  have nothing : ∀ t, skipRight path.reverse = t → components t.reverse ≠ [] := by
    rintro t rfl empty
    rw [← trimRight, whole] at empty
    rw [empty] at last
    cases last
  obtain ⟨slash, dotSlash⟩ := skipRight_tight path.reverse
  obtain ⟨word, rest, shape, component, ended⟩ :=
    component_of_heads (fun empty => nothing _ empty rfl) slash dotSlash (fun dot => nothing _ dot rfl)
  have text : path.trimRight = rest.reverse ++ word.reverse := by
    rw [trimRight, shape, List.reverse_append]
  have ends : rest.reverse = [] ∨ rest.reverse.getLast? = some '/' := by
    rcases ended with rfl | ⟨more, rfl⟩
    · exact .inl rfl
    · rw [List.getLast?_reverse]
      exact .inr rfl
  have split := components_front ends (component_reverse component)
  rw [← text, whole] at split
  have same : word.reverse = name := by
    rw [split, List.getLast?_concat] at last
    exact Option.some.inj last
  refine ⟨rest.reverse, same ▸ text, ends, ?_, same ▸ component_reverse component⟩
  rw [split, List.dropLast_concat]

theorem fileName?_eq_some_iff : fileName? path = some name ↔
    (components path).getLast? = some name ∧ name ≠ "..".toList := by
  rw [fileName?]
  cases (components path).getLast? with
  | none => simp
  | some other =>
    by_cases up : other = "..".toList
    · simp only [if_pos up, Option.some.injEq]
      exact iff_of_false nofun fun both => both.2 (both.1 ▸ up)
    · simp only [if_neg up, Option.some.injEq]
      exact ⟨fun same => ⟨same, same ▸ up⟩, fun both => both.1⟩

theorem proper_of_fileName? (named : fileName? path = some name) : Proper name := by
  obtain ⟨last, up⟩ := fileName?_eq_some_iff.mp named
  obtain ⟨_, _, _, _, component⟩ := trimRight_eq last
  exact ⟨component, up⟩

theorem place_of_fileName? (named : fileName? path = some name) :
    path.place = (components path).dropLast.foldl Tree.step [] ++ [name] := by
  obtain ⟨last, _⟩ := fileName?_eq_some_iff.mp named
  obtain ⟨front, split⟩ := List.getLast?_eq_some_iff.mp last
  rw [place_eq_components, split, List.dropLast_concat, List.foldl_append]
  exact step_of_proper _ (proper_of_fileName? named)

theorem splitExtension_eq_some {stem extension : Text} (split : splitExtension name = (stem, some extension)) :
    name = stem ++ '.' :: extension ∧ stem ≠ [] ∧ '.' ∉ extension := by
  rw [splitExtension] at split
  have parts := List.takeWhile_append_dropWhile (p := fun c => decide (c ≠ '.')) (l := name.reverse)
  split at split
  · next c rest shape =>
    cases split
    rw [shape] at parts
    refine ⟨?_, by simp, ?_⟩
    · have back := (congrArg List.reverse parts).symm
      rw [List.reverse_reverse, List.reverse_append, List.reverse_cons, List.append_assoc] at back
      exact back
    · intro dotted
      have plain := List.mem_takeWhile_imp (List.mem_reverse.mp dotted)
      exact absurd rfl (of_decide_eq_true plain)
  · cases split

theorem splitExtension_eq_none {stem : Text} (split : splitExtension name = (stem, none)) : stem = name := by
  rw [splitExtension] at split
  split at split
  · cases split
  · exact (congrArg Prod.fst split).symm

theorem stem_append (name : Text) : ∃ tail, name = (splitExtension name).1 ++ tail := by
  cases split : splitExtension name with
  | mk stem extension =>
    cases extension with
    | none =>
      obtain rfl := splitExtension_eq_none split
      exact ⟨[], (List.append_nil _).symm⟩
    | some extension => exact ⟨_, (splitExtension_eq_some split).1⟩

/-- An extension that can be set: it leads nowhere else and is not of dots only. -/
def Extension (extension : Text) : Prop := '/' ∉ extension ∧ ∃ c ∈ extension, c ≠ '.'

theorem proper_extended {extension : Text} (proper : Proper name) (extends_ : Extension extension) :
    Proper ((splitExtension name).1 ++ '.' :: extension) := by
  obtain ⟨tail, shape⟩ := stem_append name
  obtain ⟨slashless, c, member, other⟩ := extends_
  have inside : c ∈ (splitExtension name).1 ++ '.' :: extension := by simp [member]
  have stemless : '/' ∉ (splitExtension name).1 := by
    intro slash
    apply proper.1.2.1
    rw [shape]
    exact List.mem_append_left _ slash
  refine ⟨⟨by simp, by simp [stemless, slashless], ?_⟩, ?_⟩
  · intro dot
    rw [dot, List.mem_singleton] at inside
    exact other inside
  · intro dots
    rw [dots] at inside
    have dotted : c = '.' := by simpa using inside
    exact other dotted

theorem components_withExtension {extension : Text} (named : fileName? path = some name)
    (extends_ : Extension extension) :
    components (path.withExtension extension) =
      (components path).dropLast ++ [(splitExtension name).1 ++ '.' :: extension] := by
  obtain ⟨last, _⟩ := fileName?_eq_some_iff.mp named
  obtain ⟨front, text, ends, above, _⟩ := trimRight_eq last
  have kept : (path.trimRight).take (path.trimRight.length - name.length) = front := by
    rw [text, List.length_append, Nat.add_sub_cancel, List.take_left]
  have extended := proper_extended (proper_of_fileName? named) extends_
  rw [withExtension, named]
  dsimp only
  rw [kept, List.append_assoc, components_front ends extended.1, above]

theorem place_withExtension {extension : Text} (named : fileName? path = some name)
    (extends_ : Extension extension) :
    (path.withExtension extension).place = path.place.dropLast ++ [(splitExtension name).1 ++ '.' :: extension] := by
  have extended := proper_extended (proper_of_fileName? named) extends_
  rw [place_eq_components, components_withExtension named extends_, List.foldl_append, place_of_fileName? named,
    List.dropLast_concat]
  exact step_of_proper _ extended

end
end TagCalls.Path
