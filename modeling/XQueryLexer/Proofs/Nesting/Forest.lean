import XQueryLexer.Tree

/-! Laws of reading and changing the items of a forest. -/

namespace XQueryLexer

namespace Forest

variable {α β : Type}

/-- Trees side by side have the items of both sides in order. -/
@[simp] theorem items_append (first second : Forest α) :
    items (first ++ second) = items first ++ items second := by
  -- The items of the first tree stand in front on both sides.
  induction first with
  | nil => rfl
  | cons tree rest ih => simp [items, ih]

/-- A tree at the end of a forest has its items at the end. -/
theorem items_concat (forest : Forest α) (tree : Tree α) :
    items (forest ++ [tree]) = items forest ++ tree.items := by
  -- The last tree by itself is a forest with the same items.
  rw [items_append]
  simp [items]

/-- Trees side by side are changed side by side. -/
@[simp] theorem map_append (change : α → β) (first second : Forest α) :
    map change (first ++ second) = map change first ++ map change second := by
  -- Induction on the first forest, whose trees come first in both.
  induction first with
  | nil => rfl
  | cons tree rest ih => simp [map, ih]

/-- A forest is changed tree by tree. -/
theorem map_eq_map (change : α → β) (forest : Forest α) :
    map change forest = List.map (Tree.map change) forest := by
  -- The definition recurses over the list of trees as the map of lists does.
  induction forest with
  | nil => rfl
  | cons tree rest ih => simp [map, ih]

end Forest

mutual

/-- A changed tree has the changed items in the same order. -/
theorem Tree.items_map {α β : Type} (change : α → β) (tree : Tree α) :
    (tree.map change).items = tree.items.map change := by
  cases tree with
  | leaf item => rfl
  -- The head of the group comes first, and then what is inside it.
  | group item inside =>
    simp only [Tree.map, Tree.items, List.map_cons]
    rw [Forest.items_map change inside]

/-- A changed forest has the changed items in the same order. -/
theorem Forest.items_map {α β : Type} (change : α → β) (forest : Forest α) :
    Forest.items (Forest.map change forest) = (Forest.items forest).map change := by
  cases forest with
  | nil => rfl
  -- The items of the first tree come first.
  | cons tree rest =>
    simp only [Forest.map, Forest.items, List.map_append]
    rw [Tree.items_map change tree, Forest.items_map change rest]

end

mutual

/-- Two changes of a tree are one. -/
theorem Tree.map_map {α β γ : Type} (first : α → β) (second : β → γ) (tree : Tree α) :
    (tree.map first).map second = tree.map fun item => second (first item) := by
  cases tree with
  | leaf item => rfl
  -- The head is changed twice, and so is what is inside.
  | group item inside =>
    simp only [Tree.map]
    rw [Forest.map_map first second inside]

/-- Two changes of a forest are one. -/
theorem Forest.map_map {α β γ : Type} (first : α → β) (second : β → γ) (forest : Forest α) :
    Forest.map second (Forest.map first forest) =
      Forest.map (fun item => second (first item)) forest := by
  cases forest with
  | nil => rfl
  -- Tree by tree.
  | cons tree rest =>
    simp only [Forest.map]
    rw [Tree.map_map first second tree, Forest.map_map first second rest]

end

mutual

/-- A tree with every item changed into itself is the same tree. -/
theorem Tree.map_id {α : Type} (tree : Tree α) : tree.map id = tree := by
  cases tree with
  | leaf item => rfl
  -- The head of a group stays, and what is inside stays by the law of forests.
  | group item inside =>
    simp only [Tree.map]
    rw [Forest.map_id inside]
    rfl

/-- A forest with every item changed into itself is the same forest. -/
theorem Forest.map_id {α : Type} (forest : Forest α) : Forest.map id forest = forest := by
  cases forest with
  | nil => rfl
  -- Tree by tree.
  | cons tree rest =>
    simp only [Forest.map]
    rw [Tree.map_id tree, Forest.map_id rest]

end

/-- The first item of a tree is its head. -/
theorem Tree.exists_items_eq {α : Type} (tree : Tree α) :
    ∃ inner, tree.items = tree.item :: inner := by
  cases tree <;> exact ⟨_, rfl⟩

/-- The head of a changed tree is the changed head. -/
@[simp] theorem Tree.item_map {α β : Type} (change : α → β) (tree : Tree α) :
    (tree.map change).item = change tree.item := by
  cases tree <;> rfl

/-- A changed tree is a group exactly if the tree is one. -/
@[simp] theorem Tree.isGroup_map {α β : Type} (change : α → β) (tree : Tree α) :
    (tree.map change).isGroup = tree.isGroup := by
  cases tree <;> rfl

/-- A change of the head that a view does not show leaves the view of the tree as it is. -/
theorem Tree.map_mapHead {α β : Type} {change : α → α} {view : α → β}
    (hidden : ∀ item, view (change item) = view item) (tree : Tree α) :
    (tree.mapHead change).map view = tree.map view := by
  cases tree <;> simp [Tree.mapHead, Tree.map, hidden]

mutual

/-- The lists of trees inside a tree, at every depth, each with the item that it is inside of. -/
def Tree.families {α : Type} : Tree α → List (Option α × Forest α)
  | .leaf _ => []
  | .group item inside => (some item, inside) :: Forest.families inside

/-- The lists of trees inside the trees of a forest, each with the item that it is inside of. -/
def Forest.families {α : Type} : List (Tree α) → List (Option α × Forest α)
  | [] => []
  | tree :: rest => tree.families ++ Forest.families rest

end

/-- Trees side by side have the families of both sides. -/
theorem Forest.families_append {α : Type} (first second : Forest α) :
    families (first ++ second) = families first ++ families second := by
  -- Induction on the first forest, whose families come first.
  induction first with
  | nil => rfl
  | cons tree rest ih => simp [families, ih]

mutual

/-- A changed tree has changed families. -/
theorem Tree.families_map {α β : Type} (change : α → β) (tree : Tree α) :
    (tree.map change).families =
      tree.families.map fun family => (family.1.map change, Forest.map change family.2) := by
  cases tree with
  | leaf item => rfl
  -- A group is the first of its own families, under its head.
  | group item inside =>
    simp only [Tree.map, Tree.families, List.map_cons, Option.map_some]
    rw [Forest.families_map change inside]

/-- A changed forest has changed families. -/
theorem Forest.families_map {α β : Type} (change : α → β) (forest : Forest α) :
    Forest.families (Forest.map change forest) =
      (Forest.families forest).map fun family =>
        (family.1.map change, Forest.map change family.2) := by
  cases forest with
  | nil => rfl
  -- The families of the first tree come first.
  | cons tree rest =>
    simp only [Forest.map, Forest.families, List.map_append]
    rw [Tree.families_map change tree, Forest.families_map change rest]

end

/-- The items of a forest that stand side by side, outside every group. -/
def Forest.heads {α : Type} (forest : Forest α) : List α :=
  List.map Tree.item forest

/-- Trees side by side have the heads of both sides. -/
@[simp] theorem Forest.heads_append {α : Type} (first second : Forest α) :
    heads (first ++ second) = heads first ++ heads second :=
  List.map_append

/-- The first tree has the first head. -/
@[simp] theorem Forest.heads_cons {α : Type} (tree : Tree α) (rest : Forest α) :
    heads (tree :: rest) = tree.item :: heads rest := rfl

/-- An empty list of trees has no head. -/
@[simp] theorem Forest.heads_nil {α : Type} : heads ([] : Forest α) = [] := rfl

/-- A changed forest has changed heads. -/
theorem Forest.heads_map {α β : Type} (change : α → β) (forest : Forest α) :
    heads (Forest.map change forest) = (heads forest).map change := by
  -- Changing the items commutes with taking the head of each tree.
  rw [map_eq_map, heads, heads, List.map_map, List.map_map]
  exact List.map_congr_left fun tree _ => tree.item_map change

/-- The lists of trees inside the groups of a forest, at every depth. -/
def Forest.insides {α : Type} (forest : Forest α) : List (Forest α) :=
  (families forest).map Prod.snd

/-- The lists of trees that stand side by side, outside every group or inside the same one. -/
def Forest.scopes {α : Type} (forest : Forest α) : List (Forest α) :=
  forest :: insides forest

/-- An empty list of trees has nothing inside a group. -/
@[simp] theorem Forest.insides_nil {α : Type} : insides ([] : Forest α) = [] := rfl

/-- Trees side by side have the lists inside the groups of both sides. -/
@[simp] theorem Forest.insides_append {α : Type} (first second : Forest α) :
    insides (first ++ second) = insides first ++ insides second := by
  simp only [insides, families_append, List.map_append]

/-- A tree without children has nothing inside. -/
@[simp] theorem Forest.insides_leaf {α : Type} (item : α) (rest : Forest α) :
    insides (.leaf item :: rest) = insides rest := rfl

/-- A group holds its own list of trees, and what is inside the groups of that. -/
@[simp] theorem Forest.insides_group {α : Type} (item : α) (inside rest : Forest α) :
    insides (.group item inside :: rest) = scopes inside ++ insides rest := by
  simp [insides, scopes, families, Tree.families]

mutual

/-- What is inside a group of a tree stands in one piece among the items of the tree. -/
theorem Tree.items_family {α : Type} {tree : Tree α} {family : Option α × Forest α}
    (member : family ∈ tree.families) :
    ∃ before after, tree.items = before ++ Forest.items family.2 ++ after := by
  cases tree with
  | leaf item => simp [Tree.families] at member
  | group item inside =>
    rcases List.mem_cons.mp member with rfl | deeper
    · exact ⟨[item], [], by simp [Tree.items]⟩
    · -- What is before the family inside the group is behind the head of the group.
      obtain ⟨before, after, found⟩ := Forest.items_family deeper
      exact ⟨item :: before, after, by simp [Tree.items, found]⟩

/-- What is inside a group of a forest stands in one piece among the items of the forest. -/
theorem Forest.items_family {α : Type} {forest : Forest α} {family : Option α × Forest α}
    (member : family ∈ Forest.families forest) :
    ∃ before after, Forest.items forest = before ++ Forest.items family.2 ++ after := by
  cases forest with
  | nil => simp [Forest.families] at member
  | cons tree rest =>
    -- The family belongs to the first tree or to a later one, and the others are around it.
    rcases List.mem_append.mp member with first | later
    · obtain ⟨before, after, found⟩ := Tree.items_family first
      exact ⟨before, after ++ Forest.items rest, by simp [Forest.items, found]⟩
    · obtain ⟨before, after, found⟩ := Forest.items_family later
      exact ⟨tree.items ++ before, after, by simp [Forest.items, found]⟩

end

/-- The items of a scope stand in one piece among the items of the forest. -/
theorem Forest.items_scope {α : Type} {forest scope : Forest α}
    (member : scope ∈ Forest.scopes forest) :
    ∃ before after, Forest.items forest = before ++ Forest.items scope ++ after := by
  -- The outermost scope has all the items, and any other one is a family.
  rcases List.mem_cons.mp member with rfl | inner
  · exact ⟨[], [], by simp⟩
  · obtain ⟨family, held, rfl⟩ := List.mem_map.mp inner
    exact Forest.items_family held

mutual

/-- Every item of a tree is its head or the head of a tree inside it. -/
theorem Tree.exists_scope_of_mem {α : Type} {tree : Tree α} {item : α}
    (member : item ∈ tree.items) :
    item = tree.item ∨ ∃ family ∈ tree.families, item ∈ Forest.heads family.2 := by
  cases tree with
  | leaf token => exact .inl (List.mem_singleton.mp member)
  | group token inside =>
    rcases List.mem_cons.mp member with same | deeper
    · exact .inl same
    · -- An item of the inside is a head there, or it is a head deeper down.
      obtain ⟨scope, within, head⟩ := Forest.exists_scope_of_mem deeper
      rcases List.mem_cons.mp within with rfl | inner
      · exact .inr ⟨_, List.mem_cons_self, head⟩
      · obtain ⟨family, held, rfl⟩ := List.mem_map.mp inner
        exact .inr ⟨family, List.mem_cons_of_mem _ held, head⟩

/-- Every item of a forest is the head of a tree in one of its scopes. -/
theorem Forest.exists_scope_of_mem {α : Type} {forest : Forest α} {item : α}
    (member : item ∈ Forest.items forest) :
    ∃ scope ∈ Forest.scopes forest, item ∈ Forest.heads scope := by
  cases forest with
  | nil => cases member
  | cons tree rest =>
    rcases List.mem_append.mp member with first | later
    · rcases Tree.exists_scope_of_mem first with rfl | ⟨family, held, head⟩
      · exact ⟨_, List.mem_cons_self, List.mem_cons_self⟩
      · exact ⟨family.2, List.mem_cons_of_mem _
          (List.mem_map_of_mem (List.mem_append_left _ held)), head⟩
    · -- An item of a later tree is found in the scopes of the rest, the first of which is part of
      -- the forest's own.
      obtain ⟨scope, within, head⟩ := Forest.exists_scope_of_mem later
      rcases List.mem_cons.mp within with rfl | inner
      · exact ⟨_, List.mem_cons_self, List.mem_cons_of_mem _ head⟩
      · obtain ⟨family, held, rfl⟩ := List.mem_map.mp inner
        exact ⟨family.2, List.mem_cons_of_mem _
          (List.mem_map_of_mem (List.mem_append_right _ held)), head⟩

end

/-- Trees side by side are pruned side by side. -/
@[simp] theorem Forest.prune_append {α : Type} (keep : α → Bool) (first second : Forest α) :
    prune keep (first ++ second) = prune keep first ++ prune keep second := by
  -- Induction on the first forest: each tree stays or goes, whatever is behind it.
  induction first with
  | nil => rfl
  | cons tree rest ih =>
    simp only [List.cons_append, prune, ih]
    split <;> rfl

/-- The heads of a pruned forest are those that are kept. -/
theorem Forest.heads_prune {α : Type} (keep : α → Bool) (forest : Forest α) :
    heads (prune keep forest) = (heads forest).filter keep := by
  induction forest with
  | nil => rfl
  | cons tree rest ih =>
    -- A tree that stays keeps its head.
    have same : (tree.prune keep).item = tree.item := by cases tree <;> rfl
    rw [prune, heads_cons, List.filter_cons, ← ih]
    split <;> simp [same]

mutual

/-- Where everything is kept, a tree stays as it is. -/
theorem Tree.prune_true {α : Type} (tree : Tree α) : (tree.prune fun _ => true) = tree := by
  cases tree with
  | leaf item => rfl
  -- The group itself always stays, and what is inside stays by the law of forests.
  | group item inside => rw [Tree.prune, Forest.prune_true inside]

/-- Where everything is kept, a forest stays as it is. -/
theorem Forest.prune_true {α : Type} (forest : Forest α) :
    Forest.prune (fun _ => true) forest = forest := by
  cases forest with
  | nil => rfl
  -- Nothing is dropped, and the first tree stays as it is.
  | cons tree rest =>
    rw [Forest.prune, if_pos rfl, Tree.prune_true tree, Forest.prune_true rest]

end

mutual

/-- Pruning comes to the same before and after a change of the items. -/
theorem Tree.prune_map {α β : Type} (keep : β → Bool) (change : α → β) (tree : Tree α) :
    (tree.map change).prune keep = (tree.prune fun item => keep (change item)).map change := by
  cases tree with
  | leaf item => rfl
  -- The head is changed only, and what is inside is pruned by the law of forests.
  | group item inside =>
    simp only [Tree.map, Tree.prune]
    rw [Forest.prune_map keep change inside]

/-- Pruning comes to the same before and after a change of the items. -/
theorem Forest.prune_map {α β : Type} (keep : β → Bool) (change : α → β) (forest : Forest α) :
    Forest.prune keep (Forest.map change forest) =
      Forest.map change (Forest.prune (fun item => keep (change item)) forest) := by
  cases forest with
  | nil => rfl
  -- A tree is kept by its head, which is looked at after the change on both sides.
  | cons tree rest =>
    simp only [Forest.map, Forest.prune, Tree.item_map]
    rw [Tree.prune_map keep change tree, Forest.prune_map keep change rest]
    split <;> rfl

end

mutual

/-- What is inside a group of a pruned tree was inside it before, and is pruned too. -/
theorem Tree.mem_families_prune {α : Type} {keep : α → Bool} {tree : Tree α}
    {family : Option α × Forest α} (member : family ∈ (tree.prune keep).families) :
    ∃ whole, (family.1, whole) ∈ tree.families ∧ family.2 = Forest.prune keep whole := by
  cases tree with
  | leaf item => simp [Tree.prune, Tree.families] at member
  -- The group itself is such a family, and the others are inside it.
  | group item inside =>
    rcases List.mem_cons.mp member with rfl | deeper
    · exact ⟨inside, List.mem_cons_self, rfl⟩
    · obtain ⟨whole, held, same⟩ := Forest.mem_families_prune deeper
      exact ⟨whole, List.mem_cons_of_mem _ held, same⟩

/-- What is inside a group of a pruned forest was inside it before, and is pruned too. -/
theorem Forest.mem_families_prune {α : Type} {keep : α → Bool} {forest : Forest α}
    {family : Option α × Forest α} (member : family ∈ Forest.families (Forest.prune keep forest)) :
    ∃ whole, (family.1, whole) ∈ Forest.families forest ∧ family.2 = Forest.prune keep whole := by
  cases forest with
  | nil => simp [Forest.prune, Forest.families] at member
  | cons tree rest =>
    -- Whether the first tree stays or not, the rest is pruned by the same law.
    have later (member : family ∈ Forest.families (Forest.prune keep rest)) :
        ∃ whole, (family.1, whole) ∈ Forest.families (tree :: rest) ∧
          family.2 = Forest.prune keep whole := by
      obtain ⟨whole, held, same⟩ := Forest.mem_families_prune member
      exact ⟨whole, List.mem_append_right _ held, same⟩
    rw [Forest.prune] at member
    split at member
    · rcases List.mem_append.mp member with first | member
      · obtain ⟨whole, held, same⟩ := Tree.mem_families_prune first
        exact ⟨whole, List.mem_append_left _ held, same⟩
      · exact later member
    · exact later member

end

/-- The scopes of a pruned forest are scopes of the forest that are pruned. -/
theorem Forest.exists_of_mem_scopes_prune {α : Type} {keep : α → Bool} {forest scope : Forest α}
    (member : scope ∈ scopes (prune keep forest)) :
    ∃ whole ∈ scopes forest, scope = prune keep whole := by
  -- The outermost scope is the forest itself, and any other one is inside a group.
  rcases List.mem_cons.mp member with rfl | inner
  · exact ⟨forest, List.mem_cons_self, rfl⟩
  · obtain ⟨family, held, rfl⟩ := List.mem_map.mp inner
    obtain ⟨whole, within, same⟩ := Forest.mem_families_prune held
    exact ⟨whole, List.mem_cons_of_mem _ (List.mem_map_of_mem within), same⟩

/-- The scopes of a changed forest are scopes of the forest that are changed. -/
theorem Forest.scopes_map {α β : Type} (change : α → β) (forest : Forest α) :
    scopes (map change forest) = (scopes forest).map (map change) := by
  -- Scopes are the forest and what is inside its families, which change with it.
  simp only [scopes, insides, families_map, List.map_cons, List.map_map]
  rfl

end XQueryLexer
