import XQueryLexer.Proofs.Naming.Alone
import XQueryLexer.Proofs.Naming.Narration
import XQueryLexer.Proofs.Naming.Roles

/-! A name is an axis, a declaration or a node type by its own text and the next real token behind
it, whatever stands before it. -/

namespace XQueryLexer

namespace Token

variable {token previous : Token} {kind : Kind}

/-- A name as it is before anything behind it is known. -/
structure Undecided (token : Token) : Prop where
  /-- The token is a name. -/
  name : token.state = .word .bare
  /-- Only a keyword has a role for good, which is that of an operator. -/
  role : token.kind.isUnresolvedName = true ∨ token.kind = .operator ∧ token.value ∈ keywords

/-- Whatever a name meets before it, what is behind it decides on the name. -/
theorem undecided_meet (kept : Option Token) (fresh : token.reset = token)
    (name : token.state = .word .bare) : (meet kept token).2.Undecided := by
  refine ⟨name, ?_⟩
  obtain ⟨previous, met⟩ : ∃ previous,
      (meet kept token).2 = token.relabel (token.labelsAfter previous).current := ⟨_, rfl⟩
  rw [met]
  cases given : (token.labelsAfter previous).current with
  | none =>
    -- Without a new role the name has the one that its class suggests.
    rw [relabel_none, kind_of_fresh fresh name]
    exact .inl rfl
  | some kind =>
    -- With one it is a keyword that is an operator, or it may be a type.
    rcases operator_or_simpleType given with ⟨rfl, keyword⟩ | rfl
    · exact .inr ⟨rfl, keyword⟩
    · exact .inl rfl

/-- A name that is no keyword is unresolved before anything behind it is known. -/
theorem Undecided.isUnresolved (undecided : token.Undecided) (free : token.value ∉ keywords) :
    token.isUnresolved = true := by
  -- Either nothing has been given to the name yet, or only what its being a keyword gives.
  rcases undecided.role with unresolved | ⟨-, keyword⟩
  · simp [Token.isUnresolved, undecided.name, unresolved]
  · exact absurd keyword free

/-- An undecided name gets a role for good, if it is not that of an operator, only where the next
real token settles it. -/
theorem Undecided.kind_followedBy_iff (undecided : token.Undecided) (next : Option Token)
    (resolved : kind.isUnresolvedName = false) (other : kind ≠ .operator) :
    (token.followedBy next).kind = kind ↔ ∃ found ∈ next, token.settledBy? found = some kind := by
  -- The name does not have the role already.
  have before : token.kind ≠ kind := by
    rintro rfl
    rcases undecided.role with unresolved | ⟨operator, -⟩
    · rw [resolved] at unresolved
      cases unresolved
    · exact other operator
  cases next with
  | none => simpa [followedBy] using before
  | some next =>
    simp only [followedBy, meet, Option.map_some, Option.getD_some, Option.mem_some_iff,
      exists_eq_left']
    generalize settled_eq : token.relabel (token.settledBy? next) = settled
    cases labels : (next.labelsAfter settled).previous with
    | none =>
      rw [relabel_none, ← settled_eq]
      cases given : token.settledBy? next with
      | none => simpa using before
      | some kind => simp [relabel]
    | some label =>
      -- The next token is the second word of a pair, and as a name it settles nothing.
      obtain ⟨rfl, name⟩ := operator_of_labelsAfter labels
      refine iff_of_false (Ne.symm other) fun given => ?_
      exact (unresolved_of_settledBy? given).2.2 name

/-- If the names that a role is open to are no keywords, then an undecided name has the role in the
end exactly if it is one of them and the next real token calls for it. -/
theorem Undecided.kind_followedBy_iff_mem (undecided : token.Undecided) (next : Option Token)
    (resolved : kind.isUnresolvedName = false) (other : kind ≠ .operator) {words : List String}
    (free : ∀ word ∈ words, word ∉ keywords) {calls : Token → Prop}
    (settles : token.isUnresolved = true →
      ∀ found, token.settledBy? found = some kind ↔ token.value ∈ words ∧ calls found) :
    (token.followedBy next).kind = kind ↔ token.value ∈ words ∧ ∃ found ∈ next, calls found := by
  rw [undecided.kind_followedBy_iff next resolved other]
  constructor
  · rintro ⟨found, member, given⟩
    have unresolved := (unresolved_of_settledBy? given).1
    obtain ⟨listed, called⟩ := (settles unresolved found).mp given
    exact ⟨listed, found, member, called⟩
  · rintro ⟨listed, found, member, called⟩
    -- No keyword is in the way, so that the name is still open when the token comes.
    have unresolved := undecided.isUnresolved (free _ listed)
    exact ⟨found, member, (settles unresolved found).mpr ⟨listed, called⟩⟩

/-- Two colons settle that a name is an axis. -/
theorem settledBy?_eq_axis_iff (unresolved : previous.isUnresolved = true) (next : Token) :
    previous.settledBy? next = some .axis ↔
      previous.value ∈ axes ∧ next.state = .pair ∧ next.value = "::" := by
  -- One case for each rule, of which only that of two colons gives an axis.
  grind [settledBy?, isUnresolved, Kind.ofCall]

/-- A variable settles that a name is its declaration. -/
theorem settledBy?_eq_declaration_iff (unresolved : previous.isUnresolved = true) (next : Token) :
    previous.settledBy? next = some .declaration ↔
      previous.value ∈ rangeBinders ∧ next.state = .word .dollar := by
  -- One case for each rule, of which only that of variables gives a declaration.
  grind [settledBy?, isUnresolved, Kind.ofCall]

/-- A round bracket settles that a name is a node type, also if nothing is inside the bracket. -/
theorem settledBy?_eq_nodeType_iff (unresolved : previous.isUnresolved = true) (next : Token) :
    previous.settledBy? next = some .nodeType ↔ previous.value ∈ nodeTypes ∧
      (next.state = .opening .round ∨ next.state = .pair ∧ next.value = "()") := by
  -- The one word that a round bracket makes an operator is no node type.
  have conditional : "if" ∉ nodeTypes := by decide
  grind [settledBy?, isUnresolved, Kind.ofCall]

end Token

/-- A real token that is passed meets what is before it, and then the next real token decides on
it. -/
theorem Pass.exists_meet_of_through {earlier later : List Token} {token : Token}
    (real : token.isReal = true) : ∃ kept, (through (earlier ++ token :: later))[earlier.length]? =
      some ((Token.meet kept token).2.followedBy (later.find? Token.isReal)) := by
  obtain ⟨front, kept, layout, ⟨eq, -, -, reset_eq⟩⟩ := exists_reaches earlier
  have own : (Token.meet kept token).2.isReal = true := real
  refine ⟨kept, ?_⟩
  rw [through, List.foldl_append, eq, List.foldl_cons, read_ofSplit, push_ofSplit_real own]
  obtain ⟨behind, tokens⟩ := exists_tokens_foldl later
  rw [tokens]
  -- In front of the token are as many tokens as before the meeting.
  have length_eq := congrArg List.length reset_eq
  have same : (Token.meet kept token).1.toList.length = kept.toList.length := by
    cases kept <;> rfl
  simp only [List.length_map, List.length_append] at length_eq
  rw [List.append_assoc (_ ++ _),
    List.getElem?_append_right (by simp only [List.length_append]; omega)]
  simp only [List.length_append, same, ← length_eq]
  simp [Nat.add_assoc]

/-- A name in a labelled scope is what the next real tree behind it makes of an undecided name with
the same text. -/
theorem Labelled.exists_undecided {before after : Forest Token} {tree : Tree Token}
    (labelled : Labelled (before ++ tree :: after)) (name : tree.item.state = .word .bare) :
    ∃ token : Token, token.Undecided ∧ token.value = tree.item.value ∧
      tree.item = token.followedBy ((after.find? (·.item.isReal)).map (·.item.reset)) := by
  have real : tree.item.reset.isReal = true := by
    show tree.item.state.isReal = true
    rw [name]
    rfl
  -- The heads of the scope are those of the pass, and the name stands behind the ones before it.
  have passed : Forest.heads (before ++ tree :: after) = Pass.through _ := labelled
  rw [Forest.heads_append, Forest.heads_cons, List.map_append, List.map_cons] at passed
  obtain ⟨kept, found⟩ := @Pass.exists_meet_of_through ((Forest.heads before).map Token.reset)
    ((Forest.heads after).map Token.reset) _ real
  rw [← passed, List.length_map, List.getElem?_append_right (Nat.le_refl _)] at found
  -- A token is real whatever its role is.
  have next : ((Forest.heads after).map Token.reset).find? Token.isReal =
      (after.find? (·.item.isReal)).map (·.item.reset) := by
    rw [Forest.heads, List.map_map, List.find?_map]
    rfl
  rw [next] at found
  exact ⟨_, @Token.undecided_meet tree.item.reset kept rfl name, rfl, by simpa using found⟩

/-- A name that has each of three roles exactly if its own text and the next real tree behind it, if
there is one, call for the role. -/
structure Token.Recognised (token : Token) (next : Option (Tree Token)) : Prop where
  /-- Two colons stand behind an axis. -/
  axis : token.kind = .axis ↔ token.value ∈ axes ∧
    ∃ tree ∈ next, tree.item.state = .pair ∧ tree.item.value = "::"
  /-- A variable stands behind the word that declares it. -/
  declaration : token.kind = .declaration ↔ token.value ∈ rangeBinders ∧
    ∃ tree ∈ next, tree.item.state = .word .dollar
  /-- A round bracket stands behind a node type, around something or around nothing. -/
  nodeType : token.kind = .nodeType ↔ token.value ∈ nodeTypes ∧
    ∃ tree ∈ next, tree.isGroup = true ∧ tree.item.state = .opening .round ∨
      tree.item.state = .pair ∧ tree.item.value = "()"

/-- Every name of a source is recognised by its own text and the next real tree behind it in its
scope. -/
theorem recognised_analyse {source : String} {options : Options} {before after : Forest Token}
    {tree : Tree Token}
    (within : before ++ tree :: after ∈ Forest.scopes (analyse source options).forest)
    (name : tree.item.state = .word .bare) :
    tree.item.Recognised (after.find? (·.item.isReal)) := by
  have deep : DeeplyLabelled (analyse source options).forest :=
    (Assembly.named_ofSource options source).forest
  obtain ⟨token, undecided, value_eq, followed⟩ := (deep _ within).exists_undecided name
  generalize next_eq : (after.find? (·.item.isReal)).map (·.item.reset) = next at followed
  -- The words of each of the three roles are no keywords.
  have axis := undecided.kind_followedBy_iff_mem next rfl (by decide) (by decide)
    Token.settledBy?_eq_axis_iff
  have declaration := undecided.kind_followedBy_iff_mem next rfl (by decide) (by decide)
    Token.settledBy?_eq_declaration_iff
  have nodeType := undecided.kind_followedBy_iff_mem next rfl (by decide) (by decide)
    Token.settledBy?_eq_nodeType_iff
  rw [← followed, value_eq, ← next_eq] at axis declaration nodeType
  -- The next tree has its class and its text whatever its role is.
  have shown (calls : Token → Prop) :
      (∃ found ∈ (after.find? (·.item.isReal)).map (·.item.reset), calls found) ↔
        ∃ tree ∈ after.find? (·.item.isReal), calls tree.item.reset := by
    simp
  rw [shown] at axis declaration nodeType
  refine ⟨axis, declaration, nodeType.trans (and_congr_right fun _ => ?_)⟩
  refine exists_congr fun other => and_congr_right fun found => or_congr_left ?_
  -- And exactly the opening brackets are groups.
  have member : other ∈ before ++ tree :: after :=
    List.mem_append_right _ (List.mem_cons_of_mem _ (List.mem_of_find?_eq_some found))
  rw [isGroup_iff_opening within member]
  exact ⟨fun opens => ⟨⟨_, opens⟩, opens⟩, And.right⟩

/-- Behind `as` a name is taken for a type at first, and the bracket behind the comment makes it a
node type. -/
theorem recognised_of_nodeType : ∃ before : Forest Token,
    before ++ .leaf { Token.ofState "text" (.word .bare) ⟨6, 10⟩ with kind := .nodeType } ::
        [.leaf (.ofState "(::)" .comment ⟨10, 14⟩), .leaf (.ofState "()" .pair ⟨14, 16⟩)] ∈
      Forest.scopes (analyse "$a as text(::)()").forest ∧
    Token.Recognised { Token.ofState "text" (.word .bare) ⟨6, 10⟩ with kind := .nodeType }
      (some (.leaf (.ofState "()" .pair ⟨14, 16⟩))) := by
  -- The scope is the whole source, and the name is its fifth tree.
  have within : [.leaf (.ofState "$a" (.word .dollar) ⟨0, 2⟩),
      .leaf (.ofState " " .whitespace ⟨2, 3⟩),
      .leaf { Token.ofState "as" (.word .bare) ⟨3, 5⟩ with kind := .operator },
      .leaf (.ofState " " .whitespace ⟨5, 6⟩)] ++
        .leaf { Token.ofState "text" (.word .bare) ⟨6, 10⟩ with kind := .nodeType } ::
          [.leaf (.ofState "(::)" .comment ⟨10, 14⟩), .leaf (.ofState "()" .pair ⟨14, 16⟩)] ∈
      Forest.scopes (analyse "$a as text(::)()").forest := by
    decide +kernel
  exact ⟨_, within, recognised_analyse within rfl⟩

end XQueryLexer
