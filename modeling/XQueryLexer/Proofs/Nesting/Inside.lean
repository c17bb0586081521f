import XQueryLexer.Proofs.Nesting.Structure

/-! What comes behind an opening bracket is inside the bracket, up to a closing one. -/

namespace XQueryLexer

/-- Tokens that lead out of a scope: there are none, or a closing bracket comes first. -/
def LeadsOut (tokens : List Token) : Prop :=
  ∀ token ∈ tokens.head?, ∃ bracket : Bracket, token.state = .closing bracket

/-- Behind tokens that lead out there can be anything, unless there are none of them. -/
theorem LeadsOut.append {tokens others : List Token} (out : LeadsOut tokens)
    (ends : tokens = [] → LeadsOut others) : LeadsOut (tokens ++ others) := by
  -- Only the first token counts.
  cases tokens with
  | nil => exact ends rfl
  | cons token rest => exact out

/-- Trees lead out of a scope as their items do, the first of which is the first head. -/
theorem leadsOut_heads_iff (forest : Forest Token) :
    LeadsOut forest.heads ↔ LeadsOut (Forest.items forest) := by
  -- The first item of a forest is the head of its first tree.
  cases forest with
  | nil => rfl
  | cons tree rest =>
    obtain ⟨inner, items_eq⟩ := tree.exists_items_eq
    simp [LeadsOut, Forest.items, items_eq]

/-- The sibling behind a group is a closing bracket, if there is one. -/
theorem WellNested.leadsOut {container : Option Token} {before after : Forest Token}
    {opener : Token} {inside : Forest Token}
    (nested : WellNested container (before ++ .group opener inside :: after)) :
    LeadsOut (Forest.heads after) := by
  intro token member
  have found : (before ++ .group opener inside :: after)[before.length]? =
      some (.group opener inside) := by
    simp
  rcases nested.closed found with ends | ⟨closer, next, -, matching⟩
  · -- Nothing is behind a group that is the last one.
    obtain rfl : after = [] := by simpa using ends
    cases member
  · -- What closes a group is the leaf behind it, whose class is that of a closing bracket.
    obtain ⟨rest, rfl⟩ : ∃ rest, after = .leaf closer :: rest := by
      cases after with
      | nil => simp at next
      | cons tree rest =>
        obtain rfl : tree = .leaf closer := by simpa using next
        exact ⟨rest, rfl⟩
    obtain rfl : closer = token := by simpa [Tree.item] using member
    cases state : opener.state with
    | opening bracket =>
      rw [state] at matching
      exact ⟨bracket, (Option.some.inj matching).symm⟩
    | _ => simp [state, LexState.closedBy?] at matching

mutual

/-- In a tree, what comes behind an opening bracket is what is inside it, and behind that there is
nothing more in the tree or a closing bracket. -/
theorem Tree.exists_inside {tree : Tree Token} {opener : Token} {bracket : Bracket}
    {earlier later : List Token}
    (group_iff : tree.isGroup = true ↔ ∃ bracket : Bracket, tree.item.state = .opening bracket)
    (deeper : ∀ scope ∈ Forest.insides [tree], ∃ container, WellNested container scope)
    (opens : opener.state = .opening bracket) (split : tree.items = earlier ++ opener :: later) :
    ∃ inside ∈ Forest.insides [tree], ∃ rest,
      later = Forest.items inside ++ rest ∧ LeadsOut rest := by
  cases tree with
  | leaf item =>
    -- The only item of a leaf is no opening bracket.
    obtain ⟨rfl, rfl, rfl⟩ : earlier = [] ∧ item = opener ∧ later = [] := by
      cases earlier <;> simp_all [Tree.items]
    exact absurd (group_iff.mpr ⟨bracket, opens⟩) Bool.false_ne_true
  | group item inside =>
    have within : Forest.insides [.group item inside] = inside :: Forest.insides inside := by
      simp [Forest.scopes]
    rw [within] at deeper ⊢
    cases earlier with
    | nil =>
      -- Everything behind the head of the group is inside it.
      obtain ⟨rfl, rfl⟩ := List.cons.inj split
      exact ⟨inside, List.mem_cons_self, [], (List.append_nil _).symm, by simp [LeadsOut]⟩
    | cons first earlier =>
      -- The bracket is inside the group itself.
      obtain ⟨-, inner⟩ := List.cons.inj split
      obtain ⟨⟨container, own⟩, deepest⟩ := List.forall_mem_cons.mp deeper
      have nested : WellNested container ([] ++ inside) := own
      obtain ⟨scope, member, found⟩ := Forest.exists_inside nested deepest opens inner
      exact ⟨scope, List.mem_cons_of_mem _ member, found⟩

/-- In trees of a scope, what comes behind an opening bracket is what is inside it, and behind that
there is nothing more in the trees or a closing bracket. -/
theorem Forest.exists_inside {container : Option Token} {before after : Forest Token}
    {opener : Token} {bracket : Bracket} {earlier later : List Token}
    (nested : WellNested container (before ++ after))
    (deeper : ∀ scope ∈ Forest.insides after, ∃ container, WellNested container scope)
    (opens : opener.state = .opening bracket)
    (split : Forest.items after = earlier ++ opener :: later) :
    ∃ inside ∈ Forest.insides after, ∃ rest,
      later = Forest.items inside ++ rest ∧ LeadsOut rest := by
  cases after with
  | nil => cases earlier <;> cases split
  | cons tree rest =>
    have beside : Forest.insides (tree :: rest) = Forest.insides [tree] ++ Forest.insides rest :=
      Forest.insides_append [tree] rest
    rw [beside] at deeper ⊢
    obtain ⟨own, others⟩ := List.forall_mem_append.mp deeper
    have inRest {earlier : List Token}
        (split : Forest.items rest = earlier ++ opener :: later) :
        ∃ inside ∈ Forest.insides [tree] ++ Forest.insides rest, ∃ rest,
          later = Forest.items inside ++ rest ∧ LeadsOut rest := by
      have moved : WellNested container ((before ++ [tree]) ++ rest) := by
        rwa [List.append_assoc]
      obtain ⟨inside, member, found⟩ := Forest.exists_inside moved others opens split
      exact ⟨inside, List.mem_append_right _ member, found⟩
    -- The bracket is in a later tree, or it is in the first one.
    rcases List.append_eq_append_iff.mp split with ⟨passed, -, left⟩ | ⟨found, first, left⟩
    · exact inRest left
    · cases found with
      | nil =>
        have left : Forest.items rest = [] ++ opener :: later := left.symm
        exact inRest left
      | cons head found =>
        obtain ⟨rfl, rfl⟩ := List.cons.inj left
        have group_iff := nested.group_iff (List.mem_append_right before List.mem_cons_self)
        obtain ⟨inside, member, more, rfl, out⟩ := Tree.exists_inside group_iff own opens first
        refine ⟨inside, List.mem_append_left _ member, more ++ Forest.items rest,
          List.append_assoc _ _ _, out.append fun _ => ?_⟩
        -- Where the tree has nothing more, its next sibling comes, which closes it.
        cases tree with
        | leaf item => simp at member
        | group item inner => exact (leadsOut_heads_iff rest).mp nested.leadsOut

end

/-- The first items of a forest are its first heads, as long as none of them is a bracket. -/
theorem Forest.exists_heads_eq {forest : Forest Token} {run more : List Token}
    (group_iff : ∀ tree ∈ forest,
      tree.isGroup = true ↔ ∃ bracket : Bracket, tree.item.state = .opening bracket)
    (plain : ∀ token ∈ run, token.state.isBracket = false) (split : items forest = run ++ more) :
    ∃ others, heads forest = run ++ heads others ∧ items others = more := by
  induction run generalizing forest with
  | nil => exact ⟨forest, rfl, split⟩
  | cons token run ih =>
    obtain ⟨first, later⟩ := List.forall_mem_cons.mp plain
    cases forest with
    | nil => cases split
    | cons tree rest =>
      obtain ⟨own, others⟩ := List.forall_mem_cons.mp group_iff
      cases tree with
      | leaf item =>
        obtain ⟨rfl, left⟩ := List.cons.inj split
        obtain ⟨others, heads_eq, items_eq⟩ := ih others later left
        exact ⟨others, congrArg (item :: ·) heads_eq, items_eq⟩
      | group item inside =>
        -- The head of a group would be a bracket.
        obtain ⟨rfl, -⟩ := List.cons.inj split
        obtain ⟨bracket, opens⟩ := own.mp rfl
        simp [show item.state = _ from opens, LexState.isBracket] at first

/-- What comes first in a source or behind an opening bracket is what is in one of the scopes of the
source, and behind that there is nothing more or a closing bracket. -/
theorem exists_scope_of_split {source : String} {options : Options} {earlier later : List Token}
    (split : Forest.items (analyse source options).forest = earlier ++ later)
    (starts : ∀ token ∈ earlier.getLast?, ∃ bracket : Bracket, token.state = .opening bracket) :
    ∃ scope ∈ Forest.scopes (analyse source options).forest, ∃ rest,
      later = Forest.items scope ++ rest ∧ LeadsOut rest := by
  rcases List.eq_nil_or_concat earlier with rfl | ⟨earlier, opener, rfl⟩
  · -- Nothing is in front of the outermost scope.
    exact ⟨_, List.mem_cons_self, [], by simpa using split.symm, by simp [LeadsOut]⟩
  · obtain ⟨bracket, opens⟩ := starts opener (by simp)
    obtain ⟨container, nested⟩ :
        ∃ container, WellNested container ([] ++ (analyse source options).forest) :=
      exists_wellNested_analyse List.mem_cons_self
    rw [List.concat_eq_append, List.append_assoc] at split
    obtain ⟨inside, member, found⟩ := Forest.exists_inside nested
      (fun scope member => exists_wellNested_analyse (List.mem_cons_of_mem _ member)) opens split
    exact ⟨inside, List.mem_cons_of_mem _ member, found⟩

/-- Tokens without brackets that come first in a source or behind an opening bracket, and behind
which there is nothing more or a closing bracket, are the first tokens of one scope. -/
theorem exists_scope_of_run {source : String} {options : Options} {earlier run more : List Token}
    (split : Forest.items (analyse source options).forest = earlier ++ (run ++ more))
    (starts : ∀ token ∈ earlier.getLast?, ∃ bracket : Bracket, token.state = .opening bracket)
    (plain : ∀ token ∈ run, token.state.isBracket = false) (out : LeadsOut more) :
    ∃ scope ∈ Forest.scopes (analyse source options).forest, ∃ others : Forest Token,
      scope.heads = run ++ others.heads ∧ LeadsOut others.heads := by
  obtain ⟨scope, within, rest, left, outside⟩ := exists_scope_of_split split starts
  -- The scope does not end within the run, because no closing bracket is there.
  obtain ⟨behind, items_eq, ends⟩ : ∃ behind,
      Forest.items scope = run ++ behind ∧ LeadsOut behind := by
    rcases List.append_eq_append_iff.mp left with ⟨behind, inner, rfl⟩ | ⟨missed, inner, rfl⟩
    · refine ⟨behind, inner, ?_⟩
      cases behind with
      | nil => simp [LeadsOut]
      | cons token behind => exact out
    · cases missed with
      | nil => exact ⟨[], by simpa using inner.symm, by simp [LeadsOut]⟩
      | cons token missed =>
        obtain ⟨bracket, closes⟩ := outside token rfl
        have dark := plain token (by simp [inner])
        simp [closes, LexState.isBracket] at dark
  obtain ⟨others, heads_eq, rfl⟩ :=
    Forest.exists_heads_eq (fun tree => isGroup_iff_opening within) plain items_eq
  exact ⟨scope, within, others, heads_eq, (leadsOut_heads_iff others).mpr ends⟩

end XQueryLexer
