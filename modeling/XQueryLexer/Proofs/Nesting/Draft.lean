import XQueryLexer.Draft
import XQueryLexer.Proofs.Naming.Labelling
import XQueryLexer.Proofs.Nesting.Address

/-! A forest that grows in place, where open brackets are known by their places among their siblings
and the latest real token by its path. -/

namespace XQueryLexer

/-- What is remembered of an open bracket of a nest. -/
def Nest.Level.opening (level : Nest.Level) : Opening :=
  ⟨level.before.length, level.opener.state, level.opener.value.front, level.opener.span.start⟩

/-- Once a token has settled the latest real one, it gives that perhaps another role. -/
theorem Assembly.scope_announce (assembly : Assembly) (token : Token) :
    (assembly.announce token).1.scope = (assembly.settle token).scope.mapLatest
      (·.relabel ((assembly.settle token).labels token).previous) :=
  scope_relabel _ _

namespace Draft

/-- A draft of a nest whose innermost scope is cut at its latest real tree, with some trees that
have been pushed behind it. -/
structure Shows (draft : Draft) (levels : List Nest.Level) (scope : Scope)
    (pushed : Forest Token) : Prop where
  /-- The forest is the one of the nest. -/
  forest_eq : draft.forest = Nest.around levels (scope.trees ++ pushed)
  /-- The open brackets are remembered from the outermost to the innermost one. -/
  openings_eq : draft.openings = (levels.map Nest.Level.opening).reverse
  /-- The path leads to the tree at which the scope is cut. -/
  latest_eq : draft.latest = scope.latest.map fun _ => Nest.address levels ++ [scope.settled.size]

variable {draft : Draft} {levels : List Nest.Level} {scope : Scope} {pushed : Forest Token}

/-- The open brackets lead to the innermost scope. -/
theorem address_eq (openings_eq : draft.openings = (levels.map Nest.Level.opening).reverse) :
    draft.address = Nest.address levels := by
  -- Each level knows the place of its bracket; the innermost level comes first, so it is reversed.
  rw [address, openings_eq, Nest.address, List.map_reverse, List.map_map]
  rfl

/-- A token in the innermost scope can be given another role by its path. -/
theorem relabel?_around {front back : Forest Token} {tree : Tree Token}
    (forest_eq : draft.forest = Nest.around levels (front ++ tree :: back)) (kind : Option Kind) :
    draft.relabel? (Nest.address levels ++ [front.length]) kind =
      some { draft with
        forest := Nest.around levels (front ++ tree.mapHead (·.relabel kind) :: back) } := by
  cases kind with
  | none =>
    -- Without a new role there is nothing to change.
    have same : tree.mapHead (·.relabel none) = tree := by cases tree <;> rfl
    rw [relabel?, same, ← forest_eq]
  | some kind =>
    rw [relabel?, forest_eq, Nest.alterItem?_around]
    rfl

/-- The latest real tree stands where the scope is cut. -/
theorem trees_of_latest {tree : Tree Token} (latest : scope.latest = some tree) :
    scope.trees ++ pushed = scope.settled.toList ++ tree :: (scope.layout.toList ++ pushed) := by
  simp [Scope.trees_eq, latest]

/-- The latest real token can be given another role. -/
theorem Shows.relabelLatest? (shows : draft.Shows levels scope pushed) (kind : Option Kind) :
    ∃ other, draft.relabelLatest? kind = some other ∧
      other.Shows levels (scope.mapLatest (·.relabel kind)) pushed := by
  cases latest : scope.latest with
  | none =>
    -- Without a real token the path is missing, and there is nothing to change.
    have same : scope.mapLatest (·.relabel kind) = scope :=
      Scope.mapLatest_eq_self (by simp [latest])
    refine ⟨draft, ?_, same.symm ▸ shows⟩
    rw [Draft.relabelLatest?, shows.latest_eq, latest]
    rfl
  | some tree =>
    -- The path leads around what is settled, and the change happens in its place.
    have forest_eq := shows.forest_eq
    rw [trees_of_latest latest] at forest_eq
    have path : draft.relabelLatest? kind =
        draft.relabel? (Nest.address levels ++ [scope.settled.toList.length]) kind := by
      rw [Draft.relabelLatest?, shows.latest_eq, latest]
      rfl
    refine ⟨_, path.trans (relabel?_around forest_eq kind), ?_, shows.openings_eq, ?_⟩
    · simp [Scope.trees_eq, Scope.mapLatest, latest]
    · rw [Scope.mapLatest, Option.map_map, shows.latest_eq]
      rfl

/-- The latest real token is the context of the next one. -/
theorem Shows.context? (shows : draft.Shows levels scope pushed) :
    draft.context? = some (scope.latestToken?.getD .scopeStart) := by
  cases latest : scope.latest with
  | none => simp [Draft.context?, shows.latest_eq, Scope.latestToken?, latest]
  | some tree =>
    -- The path leads to the tree that the scope holds as its latest real one.
    have found := Nest.itemAt?_around levels scope.settled.toList
      (scope.layout.toList ++ pushed) tree
    rw [← trees_of_latest latest, ← shows.forest_eq] at found
    rw [Draft.context?, shows.latest_eq, latest]
    simpa [Scope.latestToken?, latest] using found

variable {tree : Tree Token}

/-- A tree that has been pushed stands behind the trees of the scope. -/
theorem Shows.itemAt?_pushed (shows : draft.Shows levels scope [tree]) :
    draft.forest.itemAt? (Nest.address levels ++ [scope.trees.length]) = some tree.item := by
  -- Its place is the number of the trees before it.
  rw [shows.forest_eq]
  exact Nest.itemAt?_around levels scope.trees [] tree

/-- A token that has been pushed settles the latest real one. -/
theorem Shows.settle? (shows : draft.Shows levels scope [tree]) :
    ∃ other, draft.settle? (Nest.address levels ++ [scope.trees.length]) = some other ∧
      other.Shows levels (scope.mapLatest
        (·.relabel (scope.latestToken?.bind (·.settledBy? tree.item)))) [tree] := by
  cases latest : scope.latestToken? with
  | none =>
    -- Without a real token nothing is settled, which is to give no role to none.
    obtain ⟨other, relabelled, shown⟩ := shows.relabelLatest? none
    refine ⟨other, ?_, shown⟩
    have nothing : draft.latest = none := by
      simpa [Scope.latestToken?, shows.latest_eq] using latest
    rw [← relabelled, Draft.settle?, Draft.relabelLatest?, nothing]
  | some previous =>
    -- The role is the one that the pushed token settles, and the relabelled draft shows it.
    obtain ⟨other, relabelled, shown⟩ := shows.relabelLatest? (previous.settledBy? tree.item)
    refine ⟨other, ?_, shown⟩
    -- The draft reads the same token by its path as the scope holds.
    have context := shows.context?
    obtain ⟨kept, found, rfl⟩ := Option.map_eq_some_iff.mp latest
    have path := shows.latest_eq
    rw [found, Option.map_some] at path
    rw [Draft.context?, path, latest] at context
    rw [← relabelled, Draft.settle?, Draft.relabelLatest?, path]
    simp only [context, shows.itemAt?_pushed]
    rfl

/-- A change of a head leaves as many trees in a scope as there were. -/
theorem length_mapLatest (scope : Scope) (change : Token → Token) :
    (scope.mapLatest change).trees.length = scope.trees.length := by
  -- There is one latest real tree before and after the change, or none.
  cases latest : scope.latest <;> simp [Scope.trees_eq, Scope.mapLatest, latest]

/-- A token that has been pushed gets its own role, and the latest real one perhaps another one. -/
theorem Shows.label? (shows : draft.Shows levels scope [tree]) :
    let labels := tree.item.labelsAfter (scope.latestToken?.getD .scopeStart)
    ∃ other, draft.label? (Nest.address levels ++ [scope.trees.length]) = some other ∧
      other.Shows levels (scope.mapLatest (·.relabel labels.previous))
        [tree.mapHead (·.relabel labels.current)] := by
  intro labels
  obtain ⟨relabelled, previous, shown⟩ := shows.relabelLatest? labels.previous
  -- The tree that has been pushed stays in its place when the one before gets a role.
  have forest_eq := shown.forest_eq
  have current := relabel?_around forest_eq labels.current
  rw [length_mapLatest] at current
  have named : Shows { relabelled with forest := _ } levels
      (scope.mapLatest (·.relabel labels.previous)) [tree.mapHead (·.relabel labels.current)] :=
    ⟨rfl, shown.openings_eq, shown.latest_eq⟩
  refine ⟨_, ?_, named⟩
  rw [Draft.label?, shows.itemAt?_pushed, shows.context?]
  exact (congrArg (Option.bind · _) previous).trans current

/-- Once it has its role, a pushed tree is the last one of the scope. -/
theorem Shows.place (shows : draft.Shows levels scope [tree]) :
    Shows { draft with
      latest := if tree.item.isReal then some (Nest.address levels ++ [scope.trees.length])
        else draft.latest } levels (scope.add tree) [] where
  forest_eq := by
    rw [Scope.trees_add, List.append_nil]
    exact shows.forest_eq
  openings_eq := shows.openings_eq
  latest_eq := by
    cases real : tree.item.isReal with
    -- A real token is the latest one now, and everything in front of it is settled.
    | true =>
      have latest : scope.add tree = ⟨scope.contents, some tree, #[]⟩ := if_pos real
      rw [latest]
      rfl
    -- Layout waits behind the latest real token, which stays.
    | false =>
      have waiting : scope.add tree = { scope with layout := scope.layout.push tree } :=
        if_neg (by simp [real])
      rw [waiting]
      exact shows.latest_eq

/-- The innermost scope of a draft can be extended in its place. -/
theorem emit?_around {siblings : Forest Token}
    (forest_eq : draft.forest = Nest.around levels siblings)
    (address_eq : draft.address = Nest.address levels) (tree : Tree Token) :
    draft.emit? tree = do
      let path := Nest.address levels ++ [siblings.length]
      let pushed := { draft with forest := Nest.around levels (siblings ++ [tree]) }
      let settled ← pushed.settle? path
      let labelled ← settled.label? path
      let latest := if tree.item.isReal then some path else labelled.latest
      return ({ labelled with latest }, siblings.length) := by
  -- The innermost scope is found where the address leads, and is changed there.
  rw [Draft.emit?, address_eq, forest_eq, Nest.scopeAt?_around, Nest.alter?_around]
  rfl

/-- A tree is placed in a draft as its token is announced in an assembly. -/
theorem Shows.emit? {assembly : Assembly} (shows : draft.Shows levels assembly.scope [])
    (tree : Tree Token) : ∃ other, draft.emit? tree = some (other, assembly.scope.trees.length) ∧
      other.Shows levels ((assembly.announce tree.item).1.scope.add
        (tree.mapHead fun _ => (assembly.announce tree.item).2)) [] := by
  have forest_eq := shows.forest_eq
  rw [List.append_nil] at forest_eq
  -- The tree is pushed, then it settles the token before it, and then it gets its own role.
  have pushed : Shows { draft with forest := Nest.around levels (assembly.scope.trees ++ [tree]) }
      levels assembly.scope [tree] :=
    ⟨rfl, shows.openings_eq, shows.latest_eq⟩
  obtain ⟨settled, settle, shown⟩ := pushed.settle?
  rw [← Assembly.scope_settle] at shown
  obtain ⟨labelled, label, named⟩ := shown.label?
  have length_eq : (assembly.settle tree.item).scope.trees.length =
      assembly.scope.trees.length := by
    rw [Assembly.scope_settle, length_mapLatest]
  rw [length_eq] at label
  refine ⟨{ labelled with
    latest := if tree.item.isReal then
        some (Nest.address levels ++ [assembly.scope.trees.length])
      else labelled.latest }, ?_, ?_⟩
  · rw [emit?_around forest_eq (address_eq shows.openings_eq)]
    simp only [settle, label, Option.bind_eq_bind, Option.bind_some]
    rfl
  · -- What the tree has as its head then is what has been announced.
    have head : (tree.mapHead fun _ => (assembly.announce tree.item).2) = tree.mapHead
        (·.relabel ((assembly.settle tree.item).labels tree.item).current) := by
      cases tree <;> rfl
    have real : (tree.mapHead fun _ => (assembly.announce tree.item).2).item.isReal =
        tree.item.isReal := by
      cases tree <;> rfl
    have placed := named.place
    rw [length_mapLatest, length_eq] at placed
    rw [Assembly.scope_announce, ← real, head]
    exact placed

end Draft

section Closing

variable {token : Token} {bracket : Bracket}

/-- A closing bracket is a real token. -/
theorem Token.isReal_closing (closes : token.state = .closing bracket) : token.isReal = true := by
  -- Only layout is not real.
  rw [isReal, closes]
  rfl

/-- A closing bracket settles no role. -/
theorem Token.settledBy?_closing (closes : token.state = .closing bracket) (previous : Token) :
    previous.settledBy? token = none := by
  -- No rule looks for a closing bracket.
  unfold settledBy?
  rw [closes]
  split <;> rfl

/-- A closing bracket neither takes nor gives a role. -/
theorem Token.labelsAfter_closing (closes : token.state = .closing bracket) (previous : Token) :
    token.labelsAfter previous = .none := by
  -- Only names take and give roles.
  rw [labelsAfter, if_pos (by simp [closes])]

/-- A closing bracket is announced without a change of any role. -/
theorem Assembly.announce_closing (closes : token.state = .closing bracket)
    (assembly : Assembly) : (assembly.announce token).1.scope = assembly.scope ∧
      (assembly.announce token).2 = token := by
  have unchanged (assembly : Assembly) : (assembly.relabel none).scope = assembly.scope := rfl
  -- It settles nothing about the token before it.
  have settled : (assembly.settle token).scope = assembly.scope := by
    have nothing : assembly.scope.latestToken?.bind (·.settledBy? token) = none := by
      cases assembly.scope.latestToken? with
      | none => rfl
      | some previous => exact Token.settledBy?_closing closes previous
    exact (congrArg (fun kind => (Assembly.relabel _ kind).scope) nothing).trans (unchanged _)
  -- It is no name, so nothing is given to it or through it either.
  have labels : (assembly.settle token).labels token = .none :=
    Token.labelsAfter_closing closes _
  simp only [announce, labels]
  exact ⟨settled, rfl⟩

namespace Draft

variable {draft : Draft} {levels : List Nest.Level} {scope : Scope}

/-- A closing bracket that is found at its path settles nothing, if the path to the latest real
token leads to some token. -/
theorem settle?_closing {path : List Nat} (closes : token.state = .closing bracket)
    (own : draft.forest.itemAt? path = some token)
    (reached : ∀ address ∈ draft.latest, ∃ previous, draft.forest.itemAt? address = some previous) :
    draft.settle? path = some draft := by
  -- Settling reads both tokens, and then changes nothing.
  cases latest : draft.latest with
  | none => rw [settle?, latest]
  | some address =>
    obtain ⟨previous, found⟩ := reached address latest
    simp only [settle?, latest, found, own, Option.bind_eq_bind, Option.bind_some,
      Token.settledBy?_closing closes]
    rfl

/-- A closing bracket that is found at its path changes no role, if the path to the latest real
token leads to some token. -/
theorem label?_closing {path : List Nat} (closes : token.state = .closing bracket)
    (own : draft.forest.itemAt? path = some token)
    (reached : ∀ address ∈ draft.latest, ∃ previous, draft.forest.itemAt? address = some previous) :
    draft.label? path = some draft := by
  -- Labelling reads the context, and a closing bracket takes and gives no role.
  obtain ⟨previous, found⟩ : ∃ previous, draft.context? = some previous := by
    cases latest : draft.latest with
    | none => exact ⟨.scopeStart, by rw [context?, latest]⟩
    | some address =>
      obtain ⟨previous, found⟩ := reached address latest
      exact ⟨previous, by rw [context?, latest]; exact found⟩
  have kept : draft.relabelLatest? none = some draft := by
    rw [relabelLatest?]
    split <;> rfl
  simp only [label?, own, found, Token.labelsAfter_closing closes, Labels.none, kept,
    Option.bind_eq_bind, Option.bind_some]
  rfl

/-- A closing bracket is placed in a draft wherever the path to the latest real token leads to, if
it still leads to a token. -/
theorem emit?_closing (forest_eq : draft.forest = Nest.around levels scope.trees)
    (openings_eq : draft.openings = (levels.map Nest.Level.opening).reverse)
    (closes : token.state = .closing bracket)
    (context : ∀ path ∈ draft.latest, ∃ previous,
      (Nest.around levels (scope.trees ++ [.leaf token])).itemAt? path = some previous) :
    ∃ other, draft.emit? (.leaf token) = some (other, scope.trees.length) ∧
      other.Shows levels (scope.add (.leaf token)) [] := by
  -- The token is pushed, and nothing but the path is changed by it after that.
  generalize pushed_eq : ({ draft with
    forest := Nest.around levels (scope.trees ++ [.leaf token]) } : Draft) = pushed
  -- The token is found where it has been pushed, and a path still leads to some token.
  have own : pushed.forest.itemAt? (Nest.address levels ++ [scope.trees.length]) = some token := by
    rw [← pushed_eq]
    exact Nest.itemAt?_around levels scope.trees [] (.leaf token)
  have reached : ∀ path ∈ pushed.latest, ∃ previous,
      pushed.forest.itemAt? path = some previous := by
    rw [← pushed_eq]
    exact context
  have real : (Tree.leaf token).item.isReal = true := Token.isReal_closing closes
  refine ⟨{ pushed with latest := some (Nest.address levels ++ [scope.trees.length]) }, ?_, ?_⟩
  · rw [emit?_around forest_eq (address_eq openings_eq), pushed_eq]
    simp only [settle?_closing closes own reached, label?_closing closes own reached, real,
      Option.bind_eq_bind, Option.bind_some]
    rfl
  · -- The scope is cut at the closing bracket, which is real.
    subst pushed_eq
    refine ⟨?_, openings_eq, ?_⟩
    · rw [Scope.trees_add, List.append_nil]
    · rw [Scope.add, if_pos real]
      rfl

end Draft

end Closing

end XQueryLexer
