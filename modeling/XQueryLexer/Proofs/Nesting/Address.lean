import Mathlib.Data.List.Basic
import XQueryLexer.Proofs.Nesting.Nest

/-! Addresses in a forest, which lead from scope to scope, and what stands at the end of a nest. -/

namespace XQueryLexer

namespace Forest

variable {α : Type} {address path : List Nat} {forest : Forest α}

/-- Two addresses lead one after the other. -/
theorem scopeAt?_append (forest : Forest α) (address further : List Nat) :
    forest.scopeAt? (address ++ further) =
      (forest.scopeAt? address).bind fun scope => scope.scopeAt? further := by
  -- Each index of the first address leads to the same scope on both sides, or nowhere.
  induction address generalizing forest with
  | nil => rfl
  | cons index address ih =>
    rw [List.cons_append, scopeAt?, scopeAt?]
    split
    · exact ih _
    · rfl

/-- A change behind two addresses is a change behind the second one behind the first one. -/
theorem alter?_append (change : Forest α → Option (Forest α)) (forest : Forest α)
    (address further : List Nat) : alter? change forest (address ++ further) =
      alter? (fun scope => alter? change scope further) forest address := by
  -- Each index of the first address puts the changed scope back in the same place on both sides.
  induction address generalizing forest with
  | nil => rfl
  | cons index address ih =>
    rw [List.cons_append, alter?, alter?]
    split
    · rw [ih]
    · rfl

/-- The item behind an address and a path is the one at the path in the scope at the address. -/
theorem itemAt?_append (forest : Forest α) (address : List Nat) {path : List Nat}
    (leads : path ≠ []) : forest.itemAt? (address ++ path) =
      (forest.scopeAt? address).bind fun scope => scope.itemAt? path := by
  -- A path that leads somewhere ends with an index, which is read in the last scope.
  obtain ⟨steps, index, rfl⟩ := (List.eq_nil_or_concat' path).resolve_left leads
  rw [← List.append_assoc]
  simp only [itemAt?, List.getLast?_concat, List.dropLast_concat, Option.bind_some,
    scopeAt?_append, Option.bind_assoc]

/-- An item behind an address and a path is changed at the path in the scope at the address. -/
theorem alterItem?_append (change : α → α) (forest : Forest α) (address : List Nat)
    {path : List Nat} (leads : path ≠ []) : alterItem? change forest (address ++ path) =
      alter? (fun scope => alterItem? change scope path) forest address := by
  -- A path that leads somewhere ends with an index, which is changed in the last scope.
  obtain ⟨steps, index, rfl⟩ := (List.eq_nil_or_concat' path).resolve_left leads
  rw [← List.append_assoc]
  simp only [alterItem?, List.getLast?_concat, List.dropLast_concat, Option.bind_some,
    alter?_append]

/-- The item at an index is the head of the tree there. -/
theorem itemAt?_singleton (front back : Forest α) (tree : Tree α) :
    itemAt? (front ++ tree :: back) [front.length] = some tree.item := by
  simp [itemAt?, scopeAt?]

/-- An item is changed at the head of the tree that stands there. -/
theorem alterItem?_singleton (change : α → α) (front back : Forest α) (tree : Tree α) :
    alterItem? change (front ++ tree :: back) [front.length] =
      some (front ++ tree.mapHead change :: back) := by
  simp [alterItem?, alter?, alterAt?]

end Forest

namespace Nest

/-- Where the innermost of some open brackets leads to. -/
def address (levels : List Level) : List Nat :=
  (levels.map fun level => level.before.length).reverse

/-- Behind the brackets around it, an open bracket leads into the tree behind its siblings. -/
theorem address_cons (level : Level) (outer : List Level) :
    address (level :: outer) = address outer ++ [level.before.length] := by
  simp [address]

/-- The innermost scope stands where the open brackets lead to. -/
theorem scopeAt?_around (levels : List Level) (inside : Forest Token) :
    (around levels inside).scopeAt? (address levels) = some inside := by
  -- The induction is on the open brackets, each of which is the last tree of its scope.
  induction levels generalizing inside with
  | nil => rfl
  | cons level outer ih =>
    rw [around_cons, address_cons, Forest.scopeAt?_append, ih]
    simp [Level.fold, Forest.scopeAt?]

/-- The innermost scope is changed where the open brackets lead to. -/
theorem alter?_around (change : Forest Token → Option (Forest Token)) (levels : List Level)
    (inside : Forest Token) : Forest.alter? change (around levels inside) (address levels) =
      (change inside).map (around levels) := by
  induction levels generalizing inside change with
  | nil => exact Option.map_id'.symm
  | cons level outer ih =>
    -- In its own scope the bracket is filled with the changed trees.
    have filled : Forest.alter? change (level.fold inside) [level.before.length] =
        (change inside).map level.fold := by
      simp only [Level.fold, Forest.alter?, List.getElem?_concat_length, List.set_append_right,
        Nat.le_refl, Nat.sub_self, List.set_cons_zero]
      rfl
    rw [around_cons, address_cons, Forest.alter?_append, ih, filled, Option.map_map]
    rfl

variable (levels : List Level) (front back : Forest Token) (tree : Tree Token)

/-- An item of the innermost scope is found behind the open brackets. -/
theorem itemAt?_around : (around levels (front ++ tree :: back)).itemAt?
    (address levels ++ [front.length]) = some tree.item := by
  -- The address leads to the innermost scope, where the tree stands behind the front.
  rw [Forest.itemAt?_append _ _ (by simp), scopeAt?_around]
  exact Forest.itemAt?_singleton front back tree

/-- An item of the innermost scope is changed behind the open brackets. -/
theorem alterItem?_around (change : Token → Token) :
    Forest.alterItem? change (around levels (front ++ tree :: back))
        (address levels ++ [front.length]) =
      some (around levels (front ++ tree.mapHead change :: back)) := by
  -- The address leads to the innermost scope, and the tree behind the front is changed there.
  rw [Forest.alterItem?_append _ _ _ (by simp), alter?_around, Forest.alterItem?_singleton]
  rfl

end Nest

end XQueryLexer
