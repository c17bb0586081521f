import Mathlib.Data.List.Forall2
import XQueryLexer.Log
import XQueryLexer.Proofs.Naming.Prefix

/-! What a log can tell of the tokens of a forest, each of which stands behind others in its
scope. -/

namespace XQueryLexer

namespace Record

/-- Whether a record tells that a token is found. -/
def isToken : Record → Bool
  | token _ _ _ _ => true
  | _ => false

/-- Whether a record tells that a token is found or that one takes another role. -/
def isNarrative : Record → Bool
  | token _ _ _ _ | relabelled _ _ _ => true
  | _ => false

end Record

/-- A token of a forest with what the log can tell of its place. -/
structure Setting where
  /-- The number of brackets around the token. -/
  depth : Nat
  /-- The latest real token before it among its siblings, if there is one. -/
  previous : Option Token
  /-- The token itself. -/
  token : Token
  deriving DecidableEq, Repr

/-- The record that tells that a token is found, which has the role that its class suggests. -/
def Setting.record (setting : Setting) : Record :=
  .token setting.token.value setting.token.state (.ofState setting.token.state) setting.depth

/-- The latest of two tokens that is real, where the second one stands behind the first. -/
def Token.later (previous : Option Token) (token : Token) : Option Token :=
  if token.isReal then some token else previous

mutual

/-- The settings of a tree in document order. -/
def Tree.settings (depth : Nat) (previous : Option Token) : Tree Token → List Setting
  | .leaf token => [⟨depth, previous, token⟩]
  | .group token inside => ⟨depth, previous, token⟩ :: Forest.settings (depth + 1) none inside

/-- The settings of a forest in document order, behind a real token if there is one. -/
def Forest.settings (depth : Nat) (previous : Option Token) : List (Tree Token) → List Setting
  | [] => []
  | tree :: rest =>
    tree.settings depth previous ++ Forest.settings depth (Token.later previous tree.item) rest

end

/-- The records of some tokens in order, where behind that of a token there may be one that tells
that the latest real sibling before it is no longer unresolved but has the role that it keeps. -/
inductive Tells : List Record → List Setting → Prop where
  | nil : Tells [] []
  | found {records : List Record} {settings : List Setting} (setting : Setting)
      (rest : Tells records settings) : Tells (setting.record :: records) (setting :: settings)
  | relabelled {records : List Record} {settings : List Setting} (setting : Setting)
      {previous : Token} {old : Kind} (before : setting.previous = some previous)
      (unresolved : old.isUnresolvedName = true)
      (resolved : previous.kind.isUnresolvedName = false) (rest : Tells records settings) :
      Tells (setting.record :: .relabelled previous.value old previous.kind :: records)
        (setting :: settings)

mutual

/-- The settings of a tree are its rows with what is before them. -/
theorem Tree.record_settings (depth : Nat) (previous : Option Token) (tree : Tree Token) :
    (tree.settings depth previous).map (fun setting => (setting.depth, setting.token)) =
      (tree.rows depth).map fun row => (row.depth, row.item) := by
  -- The head is the first row, and the others are those of the forest inside.
  cases tree with
  | leaf token => rfl
  | group token inside =>
    simp only [Tree.settings, Tree.rows, List.map_cons]
    rw [Forest.record_settings (depth + 1) none inside]

/-- The settings of a forest are its rows with what is before them. -/
theorem Forest.record_settings (depth : Nat) (previous : Option Token) (forest : Forest Token) :
    (Forest.settings depth previous forest).map
        (fun setting => (setting.depth, setting.token)) =
      (Forest.rows depth forest).map fun row => (row.depth, row.item) := by
  -- What is before a tree has no part in its row.
  cases forest with
  | nil => rfl
  | cons tree rest =>
    simp only [Forest.settings, Forest.rows, List.map_append]
    rw [Tree.record_settings depth previous tree, Forest.record_settings depth _ rest]

end

/-- The settings of trees side by side are those of both sides, behind what is real of the first. -/
theorem Forest.settings_append (depth : Nat) (previous : Option Token)
    (first second : Forest Token) : Forest.settings depth previous (first ++ second) =
      Forest.settings depth previous first ++
        Forest.settings depth ((heads first).foldl Token.later previous) second := by
  -- The latest real head is handed on from tree to tree.
  induction first generalizing previous with
  | nil => rfl
  | cons tree rest ih =>
    simp only [List.cons_append, Forest.settings, ih, heads_cons, List.foldl_cons,
      List.append_assoc]

/-- The settings of a nest end with those of its innermost scope. -/
theorem Nest.exists_settings_around (levels : List Nest.Level) : ∃ front, ∀ inside,
    Forest.settings 0 none (Nest.around levels inside) =
      front ++ Forest.settings levels.length none inside := by
  -- Each open bracket is the last tree of the scope around it.
  induction levels with
  | nil => exact ⟨[], fun _ => rfl⟩
  | cons level outer ih =>
    obtain ⟨front, around_eq⟩ := ih
    refine ⟨front ++ Forest.settings outer.length none level.before ++ [⟨outer.length,
      (Forest.heads level.before).foldl Token.later none, level.opener⟩], fun inside => ?_⟩
    rw [Nest.around_cons, around_eq, Nest.Level.fold, Forest.settings_append]
    simp [Forest.settings, Tree.settings]

namespace Tells

variable {records more : List Record} {settings others : List Setting}

/-- Two parts of a log that tell of two parts of a forest tell of both of them. -/
theorem append (first : Tells records settings) (second : Tells more others) :
    Tells (records ++ more) (settings ++ others) := by
  -- What tells of the first part stays in front.
  induction first with
  | nil => exact second
  | found setting _ ih => exact .found setting ih
  | relabelled setting before unresolved resolved _ ih =>
    exact .relabelled setting before unresolved resolved ih

/-- The records of tokens alone are one for each token. -/
theorem filter_isToken (tells : Tells records settings) :
    records.filter Record.isToken = settings.map Setting.record := by
  have isToken (setting : Setting) : setting.record.isToken = true := rfl
  -- Records of new roles are the only others that tell of a token.
  induction tells with
  | nil => rfl
  | found setting _ ih => simp [isToken, ih]
  | relabelled setting _ _ _ _ ih =>
    simp only [List.filter_cons, isToken, if_true, List.map_cons, ih]
    rfl

end Tells

/-- Two settings of a token, of which the first is from before the latest real token before it has
its last role. -/
structure Setting.Keeps (early late : Setting) : Prop where
  /-- What the log tells of the token itself is the same. -/
  record_eq : early.record = late.record
  /-- A real token before it that has its last role keeps it. -/
  previous_eq : ∀ previous ∈ early.previous, previous.kind.isUnresolvedName = false →
    late.previous = some previous

/-- A setting keeps what it is. -/
theorem Setting.Keeps.refl (setting : Setting) : setting.Keeps setting :=
  ⟨rfl, fun _ before _ => before⟩

/-- Tokens that are settled later were not told to be settled before, so that the log stays true. -/
theorem Tells.settle {records : List Record} {early late : List Setting}
    (tells : Tells records early) (keeps : List.Forall₂ Setting.Keeps early late) :
    Tells records late := by
  induction tells generalizing late with
  | nil =>
    obtain rfl := List.forall₂_nil_left_iff.mp keeps
    exact .nil
  | found setting _ ih =>
    obtain ⟨other, settings, kept, rest, rfl⟩ := List.forall₂_cons_left_iff.mp keeps
    -- The record of the token is the same, whatever it is settled as later.
    rw [kept.record_eq]
    exact .found other (ih rest)
  | relabelled setting before unresolved resolved _ ih =>
    obtain ⟨other, settings, kept, rest, rfl⟩ := List.forall₂_cons_left_iff.mp keeps
    -- A role that was told of has been final since, so that it still stands before the token.
    rw [kept.record_eq]
    exact .relabelled other (kept.previous_eq _ before resolved) unresolved resolved (ih rest)

namespace Forest

/-- What is told of trees behind a token stays true when that is settled. -/
theorem keeps_of_previous {early late : Option Token} (depth : Nat) (forest : Forest Token)
    (keeps : ∀ previous ∈ early, previous.kind.isUnresolvedName = false → late = some previous) :
    List.Forall₂ Setting.Keeps (settings depth early forest) (settings depth late forest) := by
  -- Only the heads look at what is before, up to the first real one of them.
  induction forest generalizing early late with
  | nil => exact .nil
  | cons tree rest ih =>
    refine List.rel_append ?_ (ih ?_)
    · cases tree with
      | leaf token => exact .cons ⟨rfl, keeps⟩ .nil
      | group token inside =>
        exact .cons ⟨rfl, keeps⟩ (List.forall₂_same.mpr fun setting _ => .refl setting)
    · unfold Token.later
      split
      · exact fun _ before _ => before
      · exact keeps

/-- What is told of the trees of a scope stays true when its latest real token is settled, if that
was unresolved. -/
theorem keeps_mapLatest (depth : Nat) (scope : Scope) {kind : Option Kind}
    (unresolved : kind ≠ none → ∀ token ∈ scope.latestToken?, token.isUnresolved = true) :
    List.Forall₂ Setting.Keeps (settings depth none scope.trees)
      (settings depth none (scope.mapLatest (·.relabel kind)).trees) := by
  have same (settings : List Setting) : List.Forall₂ Setting.Keeps settings settings :=
    List.forall₂_same.mpr fun setting _ => .refl setting
  cases latest : scope.latest with
  | none =>
    -- Without a real tree there is nothing to be settled.
    rw [Scope.mapLatest_eq_self (by simp [latest])]
    exact same _
  | some tree =>
    cases kind with
    | none =>
      rw [Scope.mapLatest_eq_self fun tree _ => by cases tree <;> rfl]
      exact same _
    | some kind =>
      have open_kind : tree.item.kind.isUnresolvedName = true := by
        have token := unresolved (by simp) tree.item (by simp [Scope.latestToken?, latest])
        exact (Bool.and_eq_true_iff.mp token).2
      -- The scope is cut at the token that is settled, and only behind it anything looks at that.
      simp only [Scope.trees_eq, Scope.mapLatest, latest, Option.map_some, Option.toList_some,
        List.append_assoc, List.singleton_append, settings_append]
      refine List.rel_append (same _) (List.rel_append ?_ (keeps_of_previous depth _ ?_))
      · cases tree with
        | leaf token => exact .cons ⟨rfl, fun _ before _ => before⟩ .nil
        | group token inside => exact .cons ⟨rfl, fun _ before _ => before⟩ (same _)
      · have head : (tree.mapHead (·.relabel (some kind))).item =
            tree.item.relabel (some kind) := by
          cases tree <;> rfl
        have real : (tree.item.relabel (some kind)).isReal = tree.item.isReal := rfl
        simp only [head, Token.later, real]
        split
        · -- The token at the cut was not final, so nothing can have been told of its role.
          intro previous before resolved
          obtain rfl := Option.some.inj before
          rw [open_kind] at resolved
          cases resolved
        · exact fun _ before _ => before

end Forest

end XQueryLexer
