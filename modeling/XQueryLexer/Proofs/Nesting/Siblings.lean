import XQueryLexer.Proofs.Nesting.Forest
import XQueryLexer.Token

/-! What the trees of one scope have to do with each other and with the scope around them. -/

namespace XQueryLexer

/-- How brackets stand side by side inside a container, or outside every bracket. -/
structure WellNested (container : Option Token) (siblings : Forest Token) : Prop where
  /-- Exactly the opening brackets have trees inside them, or a place for trees. -/
  group_iff {tree : Tree Token} : tree ∈ siblings →
    (tree.isGroup = true ↔ ∃ bracket : Bracket, tree.item.state = .opening bracket)
  /-- A bracket is closed by the sibling after it, unless it is the last one. -/
  closed {i : Nat} {opener : Token} {inside : Forest Token} :
    siblings[i]? = some (.group opener inside) → siblings.length = i + 1 ∨
      ∃ closer : Token, siblings[i + 1]? = some (.leaf closer) ∧ closer.error = false ∧
        opener.state.closedBy? = some closer.state
  /-- A closing bracket that is no error closes the sibling before it. -/
  closes {i : Nat} {tree : Tree Token} {bracket : Bracket} :
    siblings[i]? = some tree → tree.item.state = .closing bracket → tree.item.error = false →
      ∃ (before : Nat) (opener : Token) (inside : Forest Token), i = before + 1 ∧
        siblings[before]? = some (.group opener inside) ∧
        opener.state.closedBy? = some tree.item.state
  /-- A closing bracket that is an error would not close the container. -/
  stray {tree : Tree Token} {opener : Token} : tree ∈ siblings → tree.item.error = true →
    container = some opener → opener.state.closedBy? ≠ some tree.item.state
  /-- A bracket that is closed has something inside it. -/
  filled {i : Nat} {opener : Token} {inside : Forest Token} :
    siblings[i]? = some (.group opener inside) → i + 1 < siblings.length → inside ≠ []
  /-- Nothing but a closing bracket is an error. -/
  error_closing {tree : Tree Token} : tree ∈ siblings → tree.item.error = true →
    ∃ bracket : Bracket, tree.item.state = .closing bracket

/-- What a tree has to be so that it can stand behind some siblings. -/
structure Fits (container : Option Token) (siblings : Forest Token) (tree : Tree Token) : Prop where
  /-- The tree has trees inside it exactly if it is an opening bracket. -/
  group_iff : tree.isGroup = true ↔ ∃ bracket : Bracket, tree.item.state = .opening bracket
  /-- The tree closes the bracket before it. -/
  closed {opener : Token} {inside : Forest Token} :
    siblings.getLast? = some (.group opener inside) → inside ≠ [] ∧ ∃ closer : Token,
      tree = .leaf closer ∧ closer.error = false ∧ opener.state.closedBy? = some closer.state
  /-- If the tree closes a bracket, that is the bracket before it. -/
  closes {bracket : Bracket} : tree.item.state = .closing bracket → tree.item.error = false →
    ∃ (opener : Token) (inside : Forest Token),
      siblings.getLast? = some (.group opener inside) ∧
      opener.state.closedBy? = some tree.item.state
  /-- If the tree is an error, then it is a closing bracket. -/
  error_closing : tree.item.error = true → ∃ bracket : Bracket, tree.item.state = .closing bracket
  /-- If the tree is an error, then it would not close the container. -/
  stray {opener : Token} : tree.item.error = true → container = some opener →
    opener.state.closedBy? ≠ some tree.item.state

/-- A position in a longer list is one of the shorter list or the last one. -/
theorem getElem?_concat_eq_some_iff {α : Type} {items : List α} {last item : α} {i : Nat} :
    (items ++ [last])[i]? = some item ↔ items[i]? = some item ∨ i = items.length ∧ item = last := by
  -- A position is inside the shorter list, just behind it, or further on, where nothing is.
  grind

section View

variable {α β : Type} {view : α → β} {forest : Forest α} {i : Nat}

/-- What has a leaf as its view is a leaf. -/
theorem Forest.exists_leaf_of_map {item : β}
    (found : (List.map (Tree.map view) forest)[i]? = some (.leaf item)) :
    ∃ own, forest[i]? = some (.leaf own) ∧ view own = item := by
  obtain ⟨tree, there, same⟩ := Option.map_eq_some_iff.mp (List.getElem?_map ▸ found)
  cases tree with
  | leaf own => exact ⟨own, there, by simpa [Tree.map] using same⟩
  | group own inside => simp [Tree.map] at same

/-- What has a group as its view is a group. -/
theorem Forest.exists_group_of_map {item : β} {inside : Forest β}
    (found : (List.map (Tree.map view) forest)[i]? = some (.group item inside)) :
    ∃ own inner, forest[i]? = some (.group own inner) ∧ view own = item := by
  obtain ⟨tree, there, same⟩ := Option.map_eq_some_iff.mp (List.getElem?_map ▸ found)
  cases tree with
  | leaf own => simp [Tree.map] at same
  | group own inner =>
    simp only [Tree.map, Tree.group.injEq] at same
    exact ⟨own, inner, there, same.1⟩

end View

namespace WellNested

variable {container : Option Token} {siblings : Forest Token} {tree : Tree Token}

/-- Nothing is wrong with a scope that has nothing in it. -/
theorem empty : WellNested container [] := by
  constructor <;> simp

/-- A tree that fits can be placed behind its siblings. -/
theorem concat (nested : WellNested container siblings) (fits : Fits container siblings tree) :
    WellNested container (siblings ++ [tree]) := by
  -- What is known at a position stays true there, unless the position was the last one.
  have kept {i : Nat} {other : Tree Token} (found : siblings[i]? = some other) :
      (siblings ++ [tree])[i]? = some other :=
    getElem?_concat_eq_some_iff.mpr (.inl found)
  have last {i : Nat} {other : Tree Token} (found : siblings[i]? = some other)
      (ends : siblings.length = i + 1) : siblings.getLast? = some other := by
    rw [List.getLast?_eq_getElem?, ends]
    exact found
  constructor
  case group_iff =>
    intro other member
    rcases List.mem_append.mp member with earlier | placed
    · exact nested.group_iff earlier
    · obtain rfl := List.mem_singleton.mp placed
      exact fits.group_iff
  case closed =>
    intro i opener inside found
    rcases getElem?_concat_eq_some_iff.mp found with earlier | ⟨rfl, -⟩
    · rcases nested.closed earlier with ends | ⟨closer, next, right, matching⟩
      · -- The bracket was the last tree so far, and the new one closes it.
        obtain ⟨-, closer, rfl, right, matching⟩ := fits.closed (last earlier ends)
        exact .inr ⟨closer, getElem?_concat_eq_some_iff.mpr (.inr ⟨ends.symm, rfl⟩), right,
          matching⟩
      · exact .inr ⟨closer, kept next, right, matching⟩
    · exact .inl (by simp)
  case closes =>
    intro i other bracket found closing right
    rcases getElem?_concat_eq_some_iff.mp found with earlier | ⟨rfl, rfl⟩
    · obtain ⟨before, opener, inside, rfl, previous, matching⟩ :=
        nested.closes earlier closing right
      exact ⟨before, opener, inside, rfl, kept previous, matching⟩
    · -- What the new tree closes was the last tree so far.
      obtain ⟨opener, inside, previous, matching⟩ := fits.closes closing right
      rw [List.getLast?_eq_getElem?] at previous
      have positive : siblings.length - 1 < siblings.length :=
        (List.getElem?_eq_some_iff.mp previous).1
      exact ⟨siblings.length - 1, opener, inside, by omega, kept previous, matching⟩
  case stray =>
    intro other opener member wrong inner
    rcases List.mem_append.mp member with earlier | placed
    · exact nested.stray earlier wrong inner
    · obtain rfl := List.mem_singleton.mp placed
      exact fits.stray wrong inner
  case filled =>
    intro i opener inside found ends
    rw [List.length_append, List.length_singleton] at ends
    rcases getElem?_concat_eq_some_iff.mp found with earlier | ⟨rfl, -⟩
    · by_cases next : i + 1 < siblings.length
      · exact nested.filled earlier next
      · -- A bracket that was the last tree so far is closed by the new one.
        have bound := (List.getElem?_eq_some_iff.mp earlier).1
        exact (fits.closed (last earlier (by omega))).1
    · omega
  case error_closing =>
    intro other member wrong
    rcases List.mem_append.mp member with earlier | placed
    · exact nested.error_closing earlier wrong
    · obtain rfl := List.mem_singleton.mp placed
      exact fits.error_closing wrong

/-- Whether a scope is well nested does not depend on what a view of its tokens leaves out. -/
theorem of_map (view : Token → Token) (state : ∀ token, (view token).state = token.state)
    (error : ∀ token, (view token).error = token.error)
    (nested : WellNested (container.map view) (Forest.map view siblings)) :
    WellNested container siblings := by
  rw [Forest.map_eq_map] at nested
  -- A tree can be looked up in the view of the scope, and what is found there is its view.
  have seen {i : Nat} {other : Tree Token} (found : siblings[i]? = some other) :
      (List.map (Tree.map view) siblings)[i]? = some (other.map view) := by
    rw [List.getElem?_map, found]
    rfl
  have member {other : Tree Token} (held : other ∈ siblings) :
      other.map view ∈ List.map (Tree.map view) siblings :=
    List.mem_map_of_mem held
  constructor
  case group_iff =>
    intro other held
    simpa [state] using nested.group_iff (member held)
  case closed =>
    intro i opener inside found
    rcases nested.closed (seen found) with ends | ⟨closer, next, right, matching⟩
    · exact .inl (by simpa using ends)
    · obtain ⟨item, there, rfl⟩ := Forest.exists_leaf_of_map next
      rw [error] at right
      rw [state, state] at matching
      exact .inr ⟨item, there, right, matching⟩
  case closes =>
    intro i other bracket found closing right
    -- An error mark and a class are the same in the view, so each law is applied there.
    have closing : (other.map view).item.state = .closing bracket := by simpa [state] using closing
    have right : (other.map view).item.error = false := by simpa [error] using right
    obtain ⟨before, opener, inside, rfl, previous, matching⟩ :=
      nested.closes (seen found) closing right
    obtain ⟨item, inner, there, rfl⟩ := Forest.exists_group_of_map previous
    exact ⟨before, item, inner, rfl, there, by simpa [state] using matching⟩
  case stray =>
    intro other opener held wrong inner
    have wrong : (other.map view).item.error = true := by simpa [error] using wrong
    simpa [state] using nested.stray (member held) wrong (congrArg (Option.map view) inner)
  case filled =>
    intro i opener inside found ends
    -- Nothing inside a bracket would be nothing inside its view as well.
    have filled := nested.filled (seen found) (by simpa using ends)
    rintro rfl
    exact filled rfl
  case error_closing =>
    intro other held wrong
    have wrong : (other.map view).item.error = true := by simpa [error] using wrong
    simpa [state] using nested.error_closing (member held) wrong

end WellNested

/-- Trees that are well nested at every depth. -/
structure DeeplyNested (container : Option Token) (siblings : Forest Token) : Prop where
  /-- The trees themselves are well nested. -/
  nested : WellNested container siblings
  /-- So are the trees inside them. -/
  families {family : Option Token × Forest Token} :
    family ∈ Forest.families siblings → WellNested family.1 family.2

/-- Every scope of trees that are deeply nested is well nested inside its container. -/
theorem DeeplyNested.exists_wellNested {container : Option Token} {siblings scope : Forest Token}
    (deep : DeeplyNested container siblings) (member : scope ∈ Forest.scopes siblings) :
    ∃ around, WellNested around scope := by
  -- The outermost scope has the given container, and any other one its opening bracket.
  rcases List.mem_cons.mp member with rfl | inner
  · exact ⟨container, deep.nested⟩
  · obtain ⟨family, held, rfl⟩ := List.mem_map.mp inner
    exact ⟨family.1, deep.families held⟩

/-- Trees of which the last one is no bracket that could still be closed. -/
def Ended (siblings : Forest Token) : Prop :=
  ∀ (opener : Token) (inside : Forest Token), siblings.getLast? ≠ some (.group opener inside)

/-- A token by itself can be the last one. -/
theorem ended_concat_leaf (siblings : Forest Token) (token : Token) :
    Ended (siblings ++ [.leaf token]) := by
  -- The last tree is a leaf, and so no group.
  intro opener inside
  simp

namespace DeeplyNested

variable {container : Option Token} {siblings inside : Forest Token} {token opener : Token}

/-- Nothing is wrong with a scope that has nothing in it. -/
theorem empty : DeeplyNested container [] :=
  ⟨.empty, by simp [Forest.families]⟩

/-- A token that fits can be placed behind its siblings. -/
theorem concat_leaf (deep : DeeplyNested container siblings)
    (fits : Fits container siblings (.leaf token)) :
    DeeplyNested container (siblings ++ [.leaf token]) := by
  -- A leaf adds no family of its own.
  refine ⟨deep.nested.concat fits, fun {family} member => ?_⟩
  rw [Forest.families_append] at member
  simp only [Forest.families, Tree.families, List.append_nil] at member
  exact deep.families member

/-- A bracket that fits can be placed behind its siblings with what is inside it. -/
theorem concat_group (deep : DeeplyNested container siblings)
    (fits : Fits container siblings (.group opener inside))
    (inner : DeeplyNested (some opener) inside) :
    DeeplyNested container (siblings ++ [.group opener inside]) := by
  refine ⟨deep.nested.concat fits, fun {family} member => ?_⟩
  rw [Forest.families_append] at member
  simp only [Forest.families, Tree.families, List.append_nil, List.mem_append, List.mem_cons]
    at member
  -- The families of the bracket are what is inside it and the families of that.
  rcases member with earlier | rfl | deeper
  · exact deep.families earlier
  · exact inner.nested
  · exact inner.families deeper

/-- Whether trees are deeply nested does not depend on what a view of their tokens leaves out. -/
theorem of_map (view : Token → Token) (state : ∀ token, (view token).state = token.state)
    (error : ∀ token, (view token).error = token.error)
    (deep : DeeplyNested (container.map view) (Forest.map view siblings)) :
    DeeplyNested container siblings := by
  refine ⟨.of_map view state error deep.nested, fun {family} member => ?_⟩
  -- Each family has its view among the families of the view.
  have seen : (family.1.map view, Forest.map view family.2) ∈
      Forest.families (Forest.map view siblings) := by
    rw [Forest.families_map]
    exact List.mem_map_of_mem member
  exact .of_map view state error (deep.families seen)

end DeeplyNested

end XQueryLexer
