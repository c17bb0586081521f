import XQueryLexer.Proofs.Lexeme.Layout

/-! What comes first in a forest, and the first tokens of a nesting as they were at that time. -/

namespace XQueryLexer

mutual

/-- A tree with no more than a number of items inside it, which are the first ones. -/
def Tree.cut {α : Type} (count : Nat) : Tree α → Tree α
  | .leaf item => .leaf item
  | .group item inside => .group item (Forest.cut count inside)

/-- The first items of a forest in document order, with each group that contains one of them. -/
def Forest.cut {α : Type} : Nat → List (Tree α) → List (Tree α)
  | 0, _ => []
  | _ + 1, [] => []
  | count + 1, tree :: rest =>
    tree.cut count :: Forest.cut (count + 1 - tree.items.length) rest

end

/-- Before its first item nothing of a forest is left. -/
@[simp] theorem Forest.cut_zero {α : Type} (forest : Forest α) : cut 0 forest = [] := by
  cases forest <;> rfl

/-- Of an empty forest nothing is left. -/
@[simp] theorem Forest.cut_nil {α : Type} (count : Nat) : cut count ([] : Forest α) = [] := by
  cases count <;> rfl

/-- Every tree has its head as an item. -/
theorem Tree.items_pos {α : Type} (tree : Tree α) : 0 < tree.items.length := by
  cases tree <;> simp [items]

mutual

/-- A tree that is cut has its head and the first of the items inside it. -/
theorem Tree.items_cut {α : Type} (count : Nat) (tree : Tree α) :
    (tree.cut count).items = tree.items.take (count + 1) := by
  cases tree with
  | leaf item => simp [Tree.cut, Tree.items]
  -- The head is always there, and the count goes for what is inside.
  | group item inside =>
    simp only [Tree.cut, Tree.items, List.take_succ_cons]
    rw [Forest.items_cut count inside]

/-- A forest that is cut has the first of its items. -/
theorem Forest.items_cut {α : Type} (count : Nat) (forest : Forest α) :
    Forest.items (Forest.cut count forest) = (Forest.items forest).take count := by
  cases count with
  | zero => simp [Forest.items]
  | succ count =>
    cases forest with
    | nil => simp [Forest.items]
    | cons tree rest =>
      -- What the items of the first tree leave of the cut goes to the trees behind it.
      simp only [Forest.cut, Forest.items]
      rw [Tree.items_cut count tree, Forest.items_cut _ rest, List.take_append]

end

mutual

/-- A tree that has no more items is not changed by a cut. -/
theorem Tree.cut_of_length_le {α : Type} {count : Nat} {tree : Tree α}
    (few : tree.items.length ≤ count + 1) : tree.cut count = tree := by
  cases tree with
  | leaf item => rfl
  -- The head takes one of the items that the cut leaves.
  | group item inside =>
    rw [Tree.cut, Forest.cut_of_length_le (by simpa [Tree.items] using few)]

/-- A forest that has no more items is not changed by a cut. -/
theorem Forest.cut_of_length_le {α : Type} {count : Nat} {forest : Forest α}
    (few : (Forest.items forest).length ≤ count) : Forest.cut count forest = forest := by
  cases forest with
  | nil => exact Forest.cut_nil count
  | cons tree rest =>
    -- There is an item at least, so that the cut is not in front of the first tree.
    simp only [Forest.items, List.length_append] at few
    have positive := tree.items_pos
    cases count with
    | zero => omega
    | succ count =>
      rw [Forest.cut, Tree.cut_of_length_le (by omega), Forest.cut_of_length_le (by omega)]

end

/-- A cut behind some trees leaves these trees as they are. -/
theorem Forest.cut_append {α : Type} (first second : Forest α) (count : Nat) :
    cut ((items first).length + count) (first ++ second) = first ++ cut count second := by
  induction first with
  | nil => simp [items]
  | cons tree rest ih =>
    have positive := tree.items_pos
    obtain ⟨more, size⟩ : ∃ more, (items (tree :: rest)).length + count = more + 1 :=
      ⟨_, (Nat.succ_pred_eq_of_pos (by simp only [items, List.length_append]; omega)).symm⟩
    simp only [items, List.length_append] at size
    -- The first tree is whole, and the cut has as much left for the others as they have items.
    have left : more + 1 - tree.items.length = (items rest).length + count := by omega
    rw [items, List.length_append, size, List.cons_append, cut, left, ih,
      Tree.cut_of_length_le (by omega), List.cons_append]

/-- Behind all of its items a forest is cut off from what follows. -/
theorem Forest.cut_left {α : Type} (first second : Forest α) :
    cut (items first).length (first ++ second) = first := by
  -- This is the cut of two forests with no item left for the second one.
  have cut := cut_append first second 0
  simpa using cut

mutual

/-- A cut before another cut comes to the same as without the other one. -/
theorem Tree.cut_cut {α : Type} {few many : Nat} (le : few ≤ many) (tree : Tree α) :
    (tree.cut many).cut few = tree.cut few := by
  cases tree with
  | leaf item => rfl
  -- The head stays, and what is inside is cut twice by the law of forests.
  | group item inside =>
    simp only [Tree.cut]
    rw [Forest.cut_cut le inside]

/-- A cut before another cut comes to the same as without the other one. -/
theorem Forest.cut_cut {α : Type} {few many : Nat} (le : few ≤ many) (forest : Forest α) :
    Forest.cut few (Forest.cut many forest) = Forest.cut few forest := by
  cases few with
  | zero => simp
  | succ few =>
    cases many with
    | zero => omega
    | succ many =>
      cases forest with
      | nil => rfl
      | cons tree rest =>
        -- Where the later cut goes through the tree, the earlier one leaves nothing behind it.
        have left : few + 1 - (tree.cut many).items.length = few + 1 - tree.items.length := by
          rw [Tree.items_cut, List.length_take]
          omega
        simp only [Forest.cut, left]
        rw [Tree.cut_cut (by omega) tree, Forest.cut_cut (by omega) rest]

end

mutual

/-- A tree is cut alike before and after a change of its items. -/
theorem Tree.cut_map {α β : Type} (change : α → β) (count : Nat) (tree : Tree α) :
    (tree.map change).cut count = (tree.cut count).map change := by
  cases tree with
  | leaf item => rfl
  -- A change of items changes no count.
  | group item inside =>
    simp only [Tree.cut, Tree.map]
    rw [Forest.cut_map change count inside]

/-- A forest is cut alike before and after a change of its items. -/
theorem Forest.cut_map {α β : Type} (change : α → β) (count : Nat) (forest : Forest α) :
    Forest.cut count (Forest.map change forest) = Forest.map change (Forest.cut count forest) := by
  cases count with
  | zero => simp [Forest.map]
  | succ count =>
    cases forest with
    | nil => simp [Forest.map]
    -- What the first tree leaves of the count is a number of items, which stays the same.
    | cons tree rest =>
      simp only [Forest.cut, Forest.map, Tree.items_map, List.length_map]
      rw [Tree.cut_map change count tree, Forest.cut_map change _ rest]

end

/-- The last tree of a forest that is cut is the only one that the cut can go through. -/
theorem Forest.exists_of_cut_eq {α : Type} {count : Nat} {forest front : Forest α} {last : Tree α}
    (cut_eq : cut count forest = front ++ [last]) :
    ∃ tree back inside, forest = front ++ tree :: back ∧ last = Tree.cut inside tree := by
  induction front generalizing count forest with
  | nil =>
    cases count with
    | zero => simp at cut_eq
    | succ count =>
      cases forest with
      | nil => simp at cut_eq
      | cons tree rest =>
        -- The cut shows one tree, so it goes through the first one or ends behind it.
        obtain ⟨first, -⟩ := List.cons.inj cut_eq
        exact ⟨tree, rest, count, rfl, first.symm⟩
  | cons head front ih =>
    cases count with
    | zero => simp at cut_eq
    | succ count =>
      cases forest with
      | nil => simp at cut_eq
      | cons tree rest =>
        obtain ⟨rfl, later⟩ := List.cons.inj cut_eq
        obtain ⟨other, back, inside, rfl, same⟩ := ih later
        -- Something is left for the trees behind the first one, which is whole therefore.
        have whole : tree.items.length ≤ count + 1 := Nat.le_of_not_lt fun more => by
          rw [Nat.sub_eq_zero_of_le (by omega)] at later
          simp at later
        exact ⟨other, back, inside, by rw [Tree.cut_of_length_le whole, List.cons_append], same⟩

namespace Nest

/-- What is cut off at the end of the innermost scope is cut off at the end of the whole forest. -/
theorem cut_around (levels : List Level) {before after : Forest Token}
    (cut_eq : Forest.cut (Forest.items before).length after = before) :
    Forest.cut (Forest.items (around levels before)).length (around levels after) =
      around levels before := by
  induction levels generalizing before after with
  | nil => exact cut_eq
  | cons level outer ih =>
    -- An open bracket is the last tree of its scope, so the cut goes through it alone.
    apply ih
    have size : (Forest.items (level.fold before)).length =
        (Forest.items level.before).length + ((Forest.items before).length + 1) := by
      simp [Level.fold, Forest.items, Tree.items]
    rw [size]
    simp only [Level.fold]
    rw [Forest.cut_append]
    simp [Forest.cut, Tree.cut, cut_eq]

/-- Behind the tokens so far the forest is cut as it was, whatever the next event is. -/
theorem cut_absorb (nest : Nest) (event : Event) :
    Forest.cut (Forest.items nest.forest).length (nest.absorb event).forest = nest.forest := by
  -- Every event places one tree at most, at the end of the innermost scope.
  have placed (nest : Nest) (tree : Tree Token) :
      Forest.cut (Forest.items nest.forest).length
        ({ nest with inside := nest.inside ++ [tree] } : Nest).forest = nest.forest :=
    cut_around nest.levels (Forest.cut_left nest.inside [tree])
  cases event with
  | turn c ahead old new => exact Forest.cut_of_length_le (Nat.le_refl _)
  | unterminated diagnostic =>
    rw [absorb, forest_report]
    exact Forest.cut_of_length_le (Nat.le_refl _)
  | lexeme found =>
    simp only [absorb, add]
    split
    · exact placed nest (.group _ [])
    · unfold closeBracket
      split
      · rw [← forest_report nest]
        exact placed _ (.leaf _)
      · rename_i level outer levels
        split
        · -- To leave the bracket is no change of the forest, and the token is placed after that.
          rw [← forest_leave levels]
          exact placed _ (.leaf _)
        · rw [← forest_report nest]
          exact placed _ (.leaf _)
    · exact placed nest (.leaf _)

/-- Behind the tokens so far the forest is cut as it was, whatever the next events are. -/
theorem cut_foldl_absorb (nest : Nest) (events : List Event) :
    Forest.cut (Forest.items nest.forest).length (events.foldl absorb nest).forest =
      nest.forest := by
  induction events generalizing nest with
  | nil => exact Forest.cut_of_length_le (Nat.le_refl _)
  | cons event rest ih =>
    -- The forest after one event has all the tokens of the one before.
    have step := nest.cut_absorb event
    have grown : (Forest.items nest.forest).length ≤
        (Forest.items (nest.absorb event).forest).length := by
      have items := congrArg List.length (congrArg Forest.items step)
      rw [Forest.items_cut, List.length_take] at items
      omega
    rw [List.foldl_cons, ← Forest.cut_cut grown, ih, step]

end Nest

end XQueryLexer
