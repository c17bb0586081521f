/-! Ordered trees whose branches are marked as such, even where nothing is inside them. -/

namespace XQueryLexer

/-- An item by itself, or an item with everything that is nested inside it. -/
inductive Tree (α : Type) where
  | leaf (item : α)
  | group (item : α) (inside : List (Tree α))
  deriving Repr

/-- Trees side by side. -/
abbrev Forest (α : Type) := List (Tree α)

/-- One item of a forest with its place in the nesting. -/
structure Row (α : Type) where
  /-- The number of groups around the item. -/
  depth : Nat
  /-- The item itself. -/
  item : α
  /-- The number of trees directly inside the item, if it is the head of a group. -/
  width : Option Nat
  deriving DecidableEq, Repr

variable {α β : Type}

/-- The item at the head of a tree. -/
def Tree.item : Tree α → α
  | .leaf item => item
  | .group item _ => item

/-- Whether a tree is a group. -/
def Tree.isGroup : Tree α → Bool
  | .leaf _ => false
  | .group _ _ => true

/-- A tree with the item at its head changed. -/
def Tree.mapHead (change : α → α) : Tree α → Tree α
  | .leaf item => .leaf (change item)
  | .group item inside => .group (change item) inside

mutual

/-- The rows of a tree in document order, where its head has a given depth. -/
def Tree.rows (depth : Nat) : Tree α → List (Row α)
  | .leaf item => [⟨depth, item, none⟩]
  | .group item inside => ⟨depth, item, some inside.length⟩ :: Forest.rows (depth + 1) inside

/-- The rows of a forest in document order, where its heads have a given depth. -/
def Forest.rows (depth : Nat) : List (Tree α) → List (Row α)
  | [] => []
  | tree :: rest => tree.rows depth ++ Forest.rows depth rest

end

mutual

/-- The items of a tree in document order. -/
def Tree.items : Tree α → List α
  | .leaf item => [item]
  | .group item inside => item :: Forest.items inside

/-- The items of a forest in document order. -/
def Forest.items : List (Tree α) → List α
  | [] => []
  | tree :: rest => tree.items ++ Forest.items rest

end

mutual

/-- A tree without the trees inside it whose heads are not kept. -/
def Tree.prune (keep : α → Bool) : Tree α → Tree α
  | .leaf item => .leaf item
  | .group item inside => .group item (Forest.prune keep inside)

/-- A forest without the trees, at every depth, whose heads are not kept. -/
def Forest.prune (keep : α → Bool) : List (Tree α) → List (Tree α)
  | [] => []
  | tree :: rest =>
    if keep tree.item then tree.prune keep :: Forest.prune keep rest else Forest.prune keep rest

end

mutual

/-- A tree of the same shape with every item changed. -/
def Tree.map (change : α → β) : Tree α → Tree β
  | .leaf item => .leaf (change item)
  | .group item inside => .group (change item) (Forest.map change inside)

/-- A forest of the same shape with every item changed. -/
def Forest.map (change : α → β) : List (Tree α) → List (Tree β)
  | [] => []
  | tree :: rest => tree.map change :: Forest.map change rest

end

namespace Forest

/-- The scope at an address, each index of which leads into a group of the scope before. -/
def scopeAt? : Forest α → List Nat → Option (Forest α)
  | forest, [] => some forest
  | forest, index :: address =>
    match forest[index]? with
    | some (.group _ inside) => scopeAt? inside address
    | _ => none

/-- A forest with a change of the scope at an address, if there is one that can be changed. -/
def alter? (change : Forest α → Option (Forest α)) : Forest α → List Nat → Option (Forest α)
  | forest, [] => change forest
  | forest, index :: address =>
    match forest[index]? with
    | some (.group item inside) =>
      (alter? change inside address).map fun inside => forest.set index (.group item inside)
    | _ => none

/-- The item at a path, the last index of which leads to a tree of the scope before. -/
def itemAt? (forest : Forest α) (path : List Nat) : Option α :=
  path.getLast?.bind fun index =>
    (forest.scopeAt? path.dropLast).bind fun scope => scope[index]?.map Tree.item

/-- A scope with a change of the item at an index, if there is one. -/
def alterAt? (change : α → α) (index : Nat) (scope : Forest α) : Option (Forest α) :=
  scope[index]?.map fun tree => scope.set index (tree.mapHead change)

/-- A forest with a change of the item at a path, if there is one. -/
def alterItem? (change : α → α) (forest : Forest α) (path : List Nat) : Option (Forest α) :=
  path.getLast?.bind fun index => alter? (alterAt? change index) forest path.dropLast

end Forest

section Equality

variable [DecidableEq α]

mutual

/-- Equality of trees, decided at the heads and then inside. -/
def Tree.decEq : (first second : Tree α) → Decidable (first = second)
  | .leaf item, .leaf other => decidable_of_iff (item = other) (by simp)
  | .leaf _, .group _ _ => isFalse (by simp)
  | .group _ _, .leaf _ => isFalse (by simp)
  | .group item inside, .group other outside =>
    have := Forest.decEq inside outside
    decidable_of_iff (item = other ∧ inside = outside) (by simp)

/-- Equality of forests, decided tree by tree. -/
def Forest.decEq : (first second : Forest α) → Decidable (first = second)
  | [], [] => isTrue rfl
  | [], _ :: _ => isFalse (by simp)
  | _ :: _, [] => isFalse (by simp)
  | tree :: rest, other :: others =>
    have := Tree.decEq tree other
    have := Forest.decEq rest others
    decidable_of_iff (tree = other ∧ rest = others) (by simp)

end

/-- Whether two trees are the same can be decided, wherever it can be for their items. -/
instance : DecidableEq (Tree α) := Tree.decEq

end Equality

end XQueryLexer
