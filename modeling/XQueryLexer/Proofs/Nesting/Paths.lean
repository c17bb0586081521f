import XQueryLexer.Proofs.Nesting.Address

/-! The paths to the items of a forest in document order, and how deep each of them leads. -/

namespace XQueryLexer

variable {α : Type}

mutual

/-- The paths from the head of a tree to its items, in document order. -/
def Tree.paths : Tree α → List (List Nat)
  | .leaf _ => [[]]
  | .group _ inside => [] :: Forest.paths 0 inside

/-- The paths to the items of trees side by side, the first of which has an index, in document
order. -/
def Forest.paths (index : Nat) : List (Tree α) → List (List Nat)
  | [] => []
  | tree :: rest => tree.paths.map (index :: ·) ++ Forest.paths (index + 1) rest

end

/-- A path to an item of trees side by side starts with the index of one of them. -/
theorem Forest.exists_of_mem_paths {index : Nat} {forest : Forest α} {path : List Nat}
    (member : path ∈ paths index forest) :
    ∃ first steps, path = first :: steps ∧ index ≤ first := by
  induction forest generalizing index with
  | nil => cases member
  -- The paths into the first tree start with its index, and the others with a later one.
  | cons tree rest ih =>
    rcases List.mem_append.mp member with here | later
    · obtain ⟨steps, -, rfl⟩ := List.mem_map.mp here
      exact ⟨index, steps, rfl, Nat.le_refl _⟩
    · obtain ⟨first, steps, rfl, le⟩ := ih later
      exact ⟨first, steps, rfl, Nat.le_of_succ_le le⟩

mutual

/-- In document order the paths of a tree are in the order of their indices. -/
theorem Tree.pairwise_paths (tree : Tree α) : tree.paths.Pairwise (· < ·) := by
  cases tree with
  | leaf item => exact List.pairwise_singleton _ _
  | group item inside =>
    -- The path to the head is empty, and no other one is.
    refine List.pairwise_cons.mpr ⟨fun path member => ?_, Forest.pairwise_paths 0 inside⟩
    obtain ⟨first, steps, rfl, -⟩ := Forest.exists_of_mem_paths member
    exact List.nil_lt_cons first steps

/-- In document order the paths of a forest are in the order of their indices. -/
theorem Forest.pairwise_paths (index : Nat) (forest : Forest α) :
    (Forest.paths index forest).Pairwise (· < ·) := by
  cases forest with
  | nil => exact .nil
  | cons tree rest =>
    refine List.pairwise_append.mpr ⟨?_, Forest.pairwise_paths (index + 1) rest, ?_⟩
    · exact tree.pairwise_paths.map _ fun first second less =>
        List.cons_lt_cons_iff.mpr (.inr ⟨rfl, less⟩)
    · -- A later tree has a larger index.
      intro here member there other
      obtain ⟨steps, -, rfl⟩ := List.mem_map.mp member
      obtain ⟨first, further, rfl, le⟩ := Forest.exists_of_mem_paths other
      exact List.cons_lt_cons_iff.mpr (.inl le)

end

mutual

/-- The depth of each row of a tree is that of the head and the number of steps from there. -/
theorem Tree.depth_rows (depth : Nat) (tree : Tree α) :
    (tree.rows depth).map Row.depth = tree.paths.map (depth + ·.length) := by
  cases tree with
  | leaf item => rfl
  -- The head is at the given depth, and a path inside has one step more than it adds.
  | group item inside =>
    rw [Tree.rows, Tree.paths, List.map_cons, List.map_cons, Forest.depth_rows (depth + 1) 0 inside]
    refine congrArg (depth :: ·) (List.map_congr_left fun path member => ?_)
    obtain ⟨first, steps, rfl, -⟩ := Forest.exists_of_mem_paths member
    simp only [List.length_dropLast, List.length_cons]
    omega

/-- The depth of each row of a forest is the number of groups that the path to it leads through. -/
theorem Forest.depth_rows (depth index : Nat) (forest : Forest α) :
    (Forest.rows depth forest).map Row.depth =
      (Forest.paths index forest).map (depth + ·.dropLast.length) := by
  cases forest with
  | nil => rfl
  | cons tree rest =>
    rw [Forest.rows, Forest.paths, List.map_append, List.map_append, List.map_map,
      Tree.depth_rows depth tree, Forest.depth_rows depth (index + 1) rest]
    -- The index of the tree is the only step that its own paths do not have.
    refine congrArg (· ++ _) (List.map_congr_left fun path _ => ?_)
    simp

end

mutual

/-- The rows of a tree hold its items in document order. -/
theorem Tree.item_rows (depth : Nat) (tree : Tree α) :
    (tree.rows depth).map Row.item = tree.items := by
  cases tree with
  | leaf item => rfl
  -- The row of the head comes first.
  | group item inside =>
    rw [Tree.rows, Tree.items, List.map_cons, Forest.item_rows (depth + 1) inside]

/-- The rows of a forest hold its items in document order. -/
theorem Forest.item_rows (depth : Nat) (forest : Forest α) :
    (Forest.rows depth forest).map Row.item = Forest.items forest := by
  cases forest with
  | nil => rfl
  -- The rows of the first tree come first.
  | cons tree rest =>
    rw [Forest.rows, Forest.items, List.map_append, Tree.item_rows depth tree,
      Forest.item_rows depth rest]

end

namespace Forest

variable {forest inside : Forest α} {index : Nat}

/-- The path of a single index leads to the head of the tree there. -/
theorem itemAt?_head {tree : Tree α} (found : forest[index]? = some tree) :
    forest.itemAt? [index] = some tree.item := by
  simp [itemAt?, scopeAt?, found]

/-- A longer path leads on inside the group at its first index. -/
theorem itemAt?_inside {item : α} (found : forest[index]? = some (.group item inside))
    {steps : List Nat} (leads : steps ≠ []) :
    forest.itemAt? (index :: steps) = inside.itemAt? steps := by
  -- The first index is an address by itself, and it leads to the inside.
  have behind := itemAt?_append forest [index] leads
  rw [List.singleton_append] at behind
  rw [behind, scopeAt?, found]
  rfl

end Forest

mutual

/-- The paths to the items of a tree of a forest lead to them, one after the other. -/
theorem Tree.itemAt?_paths {forest : Forest α} {index : Nat} (tree : Tree α)
    (found : forest[index]? = some tree) :
    tree.paths.map (fun steps => forest.itemAt? (index :: steps)) = tree.items.map some := by
  cases tree with
  | leaf item => simp [Tree.paths, Tree.items, Forest.itemAt?_head found, Tree.item]
  | group item inside =>
    -- A path inside the group is read there, behind the index of the group.
    have inner : (Forest.paths 0 inside).map (fun steps => forest.itemAt? (index :: steps)) =
        (Forest.paths 0 inside).map (Forest.itemAt? inside) := by
      refine List.map_congr_left fun path member => ?_
      obtain ⟨first, steps, rfl, -⟩ := Forest.exists_of_mem_paths member
      exact Forest.itemAt?_inside found (List.cons_ne_nil _ _)
    -- Inside the group the paths lead to its items by the law of forests.
    have first : (Forest.paths 0 inside).map (Forest.itemAt? inside) =
        (Forest.items inside).map some := Forest.itemAt?_paths [] inside
    rw [Tree.paths, Tree.items, List.map_cons, List.map_cons, inner, first,
      Forest.itemAt?_head found]
    rfl

/-- The paths to the items of trees behind others lead to them, one after the other. -/
theorem Forest.itemAt?_paths (before after : Forest α) :
    (Forest.paths before.length after).map (Forest.itemAt? (before ++ after)) =
      (Forest.items after).map some := by
  cases after with
  | nil => rfl
  | cons tree rest =>
    have found : (before ++ tree :: rest)[before.length]? = some tree := by simp
    -- Behind the first tree, this tree is one of those before.
    have later := Forest.itemAt?_paths (before ++ [tree]) rest
    simp only [List.length_append, List.length_singleton, List.append_assoc,
      List.singleton_append] at later
    rw [Forest.paths, Forest.items, List.map_append, List.map_append, List.map_map, later]
    exact congrArg (· ++ _) (tree.itemAt?_paths found)

end

end XQueryLexer
