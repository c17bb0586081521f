import Mathlib.Data.List.Induction
import XQueryLexer.Proofs.Naming.Skeleton
import XQueryLexer.Proofs.Nesting.Splice

/-! Empty brackets and brackets around a space give the same roles to the names around them, apart
from the names that look for the one or for the other. -/

namespace XQueryLexer

/-- Resetting a token takes back any role that it was given. -/
@[simp] theorem Token.reset_relabel (token : Token) (kind : Option Kind) :
    (token.relabel kind).reset = token.reset := rfl

/-- Only a name can be settled by the token behind it. -/
theorem Token.settledBy?_mark {mark : Token} (named : mark.state ≠ .word .bare) (token : Token) :
    mark.settledBy? token = none := by
  -- Anything else is turned away before the next token is looked at.
  rw [settledBy?, if_pos]
  simp [named]

/-- Only a name can be given a role by the name behind it. -/
theorem Token.previous_labelsAfter {mark : Token} (named : mark.state ≠ .word .bare)
    (token : Token) : (token.labelsAfter mark).previous = none := by
  -- Only a pair of names is relabelled as a whole.
  unfold labelsAfter
  split
  · rfl
  · split
    · rename_i same
      exact absurd same named
    all_goals first | rfl | (split <;> rfl)

namespace Pass

/-- A pass that has come as far as some tokens, cut at the latest real one of them. -/
structure Reaches (pass : Pass) (tokens front : List Token) (kept : Option Token)
    (layout : List Token) : Prop where
  /-- The pass is cut there. -/
  eq : pass = ofSplit front kept layout
  /-- The token at the cut is real. -/
  held : ∀ token ∈ kept, token.isReal = true
  /-- No other one stands behind it. -/
  dark : ∀ token ∈ layout, token.isReal = false
  /-- The pass has given nothing but roles to the tokens. -/
  reset_eq : (front ++ (kept.toList ++ layout)).map Token.reset = tokens.map Token.reset

/-- A pass over tokens can be cut at the latest real one. -/
theorem exists_reaches (tokens : List Token) :
    ∃ front kept layout, (tokens.foldl read start).Reaches tokens front kept layout := by
  -- Token by token: a real one moves the cut behind itself, and layout waits behind the cut.
  induction tokens using List.reverseRecOn with
  | nil => exact ⟨[], none, [], rfl, by simp, by simp, rfl⟩
  | append_singleton tokens token ih =>
    obtain ⟨front, kept, layout, eq, held, dark, reset_eq⟩ := ih
    have same : (Token.meet kept token).1.toList.map Token.reset = kept.toList.map Token.reset := by
      cases kept <;> rfl
    have own : (Token.meet kept token).2.reset = token.reset := rfl
    rw [List.foldl_append, eq, List.foldl_cons, List.foldl_nil, read_ofSplit]
    cases real : (Token.meet kept token).2.isReal with
    | true =>
      refine ⟨_, _, _, push_ofSplit_real real, by simpa using real, by simp, ?_⟩
      simp only [List.map_append] at reset_eq
      simp [same, own, ← reset_eq]
    | false =>
      refine ⟨_, _, _, push_ofSplit_layout real, ?_, ?_, ?_⟩
      · -- The token at the cut may get another role, but it stays real.
        intro other member
        obtain ⟨previous, before, same⟩ := Token.exists_of_mem_meet member
        rw [same]
        exact held previous before
      · intro other member
        rcases List.mem_append.mp member with earlier | added
        · exact dark other earlier
        · rwa [List.mem_singleton.mp added]
      · simp only [List.map_append] at reset_eq
        simp [same, own, ← reset_eq]

/-- Two tokens that are no names and give the same role to the next real token behind them lead to
the same roles behind them. -/
theorem tokens_foldl_marks {first second : Token} (named : first.state ≠ .word .bare)
    (named' : second.state ≠ .word .bare) {layout : List Token} (tokens : List Token)
    (alike : ∀ token, (tokens.filter Token.isReal).head? = some token →
      token.labelsAfter first = token.labelsAfter second) :
    ∃ behind, (tokens.foldl read (ofSplit [] (some first) layout)).tokens = first :: behind ∧
      (tokens.foldl read (ofSplit [] (some second) layout)).tokens = second :: behind := by
  -- Layout is passed alike, and the first real token is the only one that meets the two tokens.
  induction tokens generalizing layout with
  | nil => exact ⟨layout, rfl, rfl⟩
  | cons token rest ih =>
    cases real : token.isReal with
    | false =>
      rw [List.filter_cons_of_neg (by simp [real])] at alike
      simp only [List.foldl_cons, read_ofSplit, Token.meet_layout real, push_ofSplit_layout real]
      exact ih alike
    | true =>
      rw [List.filter_cons_of_pos real] at alike
      have met {mark : Token} (named : mark.state ≠ .word .bare) : Token.meet (some mark) token =
          (some mark, token.relabel (token.labelsAfter mark).current) := by
        simp [Token.meet, Token.settledBy?_mark named, Token.previous_labelsAfter named]
      have own (kind : Option Kind) : (token.relabel kind).isReal = true := real
      simp only [List.foldl_cons, read_ofSplit, met named, met named', push_ofSplit_real (own _),
        alike token rfl]
      refine ⟨layout ++ _, tokens_foldl_ofSplit rest, tokens_foldl_ofSplit rest⟩

end Pass

/-- The names that a bracket behind them makes operators, where they could be something else. -/
def Bracket.heralds : Bracket → List String
  | round => ["if"]
  | square => ["array"]
  | curly => ["map", "array"]

/-- Tokens of a scope in front of a bracket and behind it that read it alike, whether it is written
as one token or around a space. -/
structure ReadAlike (bracket : Bracket) (front back : List Token) : Prop where
  /-- The latest real token in front of the bracket is no name that such a bracket makes an
  operator. -/
  herald : ∀ token, (front.filter Token.isReal).getLast? = some token →
    token.state = .word .bare → token.value ∉ bracket.heralds
  /-- Only a round bracket has a keyword as the next real token behind it. -/
  keyword : bracket ≠ .round → ∀ token, (back.filter Token.isReal).head? = some token →
    token.state = .word .bare → token.value ∉ keywords

/-- Whether a bracket is read alike has nothing to do with the roles of the tokens around it. -/
theorem ReadAlike.of_reset {bracket : Bracket} {front back front' back' : List Token}
    (alike : ReadAlike bracket front back)
    (front_eq : front.map Token.reset = front'.map Token.reset)
    (back_eq : back.map Token.reset = back'.map Token.reset) : ReadAlike bracket front' back' := by
  -- Leaving out layout comes to the same before and after the roles are reset.
  have commutes (tokens : List Token) : (tokens.filter Token.isReal).map Token.reset =
      (tokens.map Token.reset).filter Token.isReal := by
    rw [List.filter_map]
    rfl
  have last := congrArg List.getLast? (congrArg (List.filter Token.isReal) front_eq)
  have first := congrArg List.head? (congrArg (List.filter Token.isReal) back_eq)
  rw [← commutes, ← commutes, List.getLast?_map, List.getLast?_map] at last
  rw [← commutes, ← commutes, List.head?_map, List.head?_map] at first
  refine ⟨fun token found name => ?_, fun other token found name => ?_⟩
  · rw [found, Option.map_some, Option.map_eq_some_iff] at last
    obtain ⟨same, held, eq⟩ := last
    have state := congrArg Token.state eq
    have value := congrArg Token.value eq
    exact value ▸ alike.herald same held (state.trans name)
  · rw [found, Option.map_some, Option.map_eq_some_iff] at first
    obtain ⟨same, held, eq⟩ := first
    have state := congrArg Token.state eq
    have value := congrArg Token.value eq
    exact value ▸ alike.keyword other same held (state.trans name)

/-- A name that is not looked for by the bracket alone takes its role from either way of writing. -/
theorem Token.settledBy?_apart {bracket : Bracket} {previous : Token}
    (free : previous.state = .word .bare → previous.value ∉ bracket.heralds) :
    previous.settledBy? (.ofEmpty bracket) = previous.settledBy? (.ofOpener bracket) := by
  unfold settledBy?
  split
  · rfl
  · -- Without its heralds a round bracket is a call either way, and the others settle nothing.
    rename_i name
    have name : previous.state = .word .bare := by
      simp only [Bool.or_eq_true, not_or, decide_eq_true_eq, not_not] at name
      exact name.1
    have apart := free name
    cases bracket <;> simp_all [ofEmpty, ofOpener, ofState, Bracket.empty, Bracket.opener,
      Bracket.closer, Bracket.heralds]

/-- A name that is no keyword takes its role from either way of writing, and behind a round bracket
every name does. -/
theorem Token.labelsAfter_apart {bracket : Bracket} {token : Token}
    (free : bracket ≠ .round → token.state = .word .bare → token.value ∉ keywords) :
    token.labelsAfter (.ofEmpty bracket) = token.labelsAfter (.ofCloser bracket) := by
  unfold labelsAfter
  split
  · rfl
  · rename_i name
    cases bracket with
    | round => rfl
    | square | curly =>
      -- A keyword is looked for behind the closing bracket only.
      have unknown : keywords.contains token.value = false := by
        simpa using free (by simp) (by simpa using name)
      simp only [ofCloser, ofState, Kind.ofKeyword?, unknown]
      rfl

namespace Pass

/-- The tokens of a pass that is cut at the latest real one, once another token has settled that. -/
def settled (front : List Token) (kept : Option Token) (layout : List Token) (mark : Token) :
    List Token :=
  front ++ ((kept.map fun token => token.relabel (token.settledBy? mark)).toList ++ layout)

/-- A token that is settled gets nothing but another role. -/
theorem reset_settled (front : List Token) (kept : Option Token) (layout : List Token)
    (mark : Token) : (settled front kept layout mark).map Token.reset =
      (front ++ (kept.toList ++ layout)).map Token.reset := by
  -- Resetting forgets the role, and without a kept token there is none.
  cases kept <;> simp [settled]

/-- A real token that is no name settles the latest real one before it, and takes its place. -/
theorem read_mark {front layout : List Token} {kept : Option Token} {mark : Token}
    (named : mark.state ≠ .word .bare) (real : mark.isReal = true) :
    (ofSplit front kept layout).read mark =
      ofSplit (settled front kept layout mark) (some mark) [] := by
  -- The mark gives the token before it what it settles, and it takes no role itself.
  have met : Token.meet kept mark =
      (kept.map fun token => token.relabel (token.settledBy? mark), mark) := by
    cases kept <;> simp [Token.meet, Token.labelsAfter, named, Labels.none]
  rw [read_ofSplit, met, push_ofSplit_real real, settled, List.append_assoc]

/-- Around a bracket that is written as one token or around a space, a pass gives the same roles to
tokens that read it alike. -/
theorem through_apart (bracket : Bracket) (front back : List Token) :
    ∃ before before' after after',
      through (front ++ .ofEmpty bracket :: back) = before ++ .ofEmpty bracket :: after ∧
        through (front ++ .ofOpener bracket :: .ofCloser bracket :: back) =
          before' ++ .ofOpener bracket :: .ofCloser bracket :: after' ∧
        before.map Token.reset = front.map Token.reset ∧
        before'.map Token.reset = front.map Token.reset ∧
        (ReadAlike bracket front back → before' = before ∧ after' = after) := by
  obtain ⟨passed, kept, layout, eq, held, dark, reset_eq⟩ := exists_reaches front
  have empty : (Token.ofEmpty bracket).state ≠ .word .bare := by simp [Token.ofEmpty, Token.ofState]
  have opener : (Token.ofOpener bracket).state ≠ .word .bare := by
    simp [Token.ofOpener, Token.ofState]
  have closer : (Token.ofCloser bracket).state ≠ .word .bare := by
    simp [Token.ofCloser, Token.ofState]
  -- Behind each of the marks the pass goes on by itself.
  obtain ⟨after, left, -⟩ := @tokens_foldl_marks _ _ empty empty [] back (fun _ _ => rfl)
  obtain ⟨after', right, -⟩ := @tokens_foldl_marks _ _ closer closer [] back (fun _ _ => rfl)
  refine ⟨settled passed kept layout (.ofEmpty bracket),
    settled passed kept layout (.ofOpener bracket), after, after', ?_, ?_, ?_, ?_, ?_⟩
  · -- The one token settles the name before it.
    rw [through, List.foldl_append, eq, List.foldl_cons, read_mark empty rfl, tokens_foldl_ofSplit,
      left]
  · -- The opening token settles the name before it, and the closing one meets that token only.
    rw [through, List.foldl_append, eq, List.foldl_cons, read_mark opener rfl, List.foldl_cons,
      read_mark closer rfl, tokens_foldl_ofSplit, right, settled]
    simp [Token.settledBy?_mark opener]
  · rw [reset_settled, reset_eq]
  · rw [reset_settled, reset_eq]
  · intro alike
    refine ⟨?_, ?_⟩
    · cases kept with
      | none => rfl
      | some previous =>
        -- The token at the cut is the latest real one, so it is none of the heralds.
        have own := alike.of_reset reset_eq.symm rfl
        have last : ((passed ++ ((some previous).toList ++ layout)).filter Token.isReal).getLast? =
            some previous := by
          have nothing : layout.filter Token.isReal = [] := by simpa using dark
          simp [nothing, held previous rfl]
        have same := Token.settledBy?_apart (own.herald previous last)
        rw [settled, settled, Option.map_some, Option.map_some, same]
    · -- The next real token takes the same role, and with it all the others.
      obtain ⟨behind, first, second⟩ := @tokens_foldl_marks _ _ empty closer [] back
        fun token found => Token.labelsAfter_apart fun other => alike.keyword other token found
      rw [left] at first
      rw [right] at second
      rw [(List.cons.inj first).2, (List.cons.inj second).2]

end Pass

namespace Forest

variable {forest first second before after inside : Forest Token} {item : Token}

/-- A forest whose shape falls into two parts falls into two parts itself. -/
theorem exists_of_map_eq_append (shape : Forest.map Token.reset forest = before ++ after) :
    ∃ front back, forest = front ++ back ∧ Forest.map Token.reset front = before ∧
      Forest.map Token.reset back = after := by
  -- A list that is mapped falls apart wherever its image does.
  rw [map_eq_map] at shape
  obtain ⟨front, back, rfl, rfl, rfl⟩ := List.map_eq_append_iff.mp shape
  exact ⟨front, back, rfl, map_eq_map _ _, map_eq_map _ _⟩

/-- A forest whose shape starts with a group starts with a group itself. -/
theorem exists_of_map_eq_group
    (shape : Forest.map Token.reset forest = .group item inside :: after) :
    ∃ head within back, forest = .group head within :: back ∧ head.reset = item ∧
      Forest.map Token.reset within = inside ∧ Forest.map Token.reset back = after := by
  -- Resetting keeps the kind of tree, so only a group can stand first.
  rcases forest with _ | ⟨_ | ⟨head, within⟩, back⟩
  · cases shape
  · cases shape
  · cases shape
    exact ⟨head, within, back, rfl, rfl, rfl, rfl⟩

/-- A forest whose shape starts with a token by itself starts with one itself. -/
theorem exists_of_map_eq_leaf (shape : Forest.map Token.reset forest = .leaf item :: after) :
    ∃ head back, forest = .leaf head :: back ∧ head.reset = item ∧
      Forest.map Token.reset back = after := by
  -- Resetting keeps the kind of tree, so only a leaf can stand first.
  rcases forest with _ | ⟨head | _, back⟩
  · cases shape
  · cases shape
    exact ⟨head, back, rfl, rfl, rfl⟩
  · cases shape

end Forest

/-- Labelled forests whose shapes differ in one scope differ in one scope, which is labelled. -/
theorem Forest.Rescopes.labelled {old new shape shape' : Forest Token}
    (rescoped : Forest.Rescopes old new shape shape') {first second : Forest Token}
    (left : DeeplyLabelled first) (right : DeeplyLabelled second)
    (shape_eq : Forest.map Token.reset first = shape)
    (shape_eq' : Forest.map Token.reset second = shape') :
    ∃ scope scope', Forest.Rescopes scope scope' first second ∧ DeeplyLabelled scope ∧
      DeeplyLabelled scope' ∧ Forest.map Token.reset scope = old ∧
      Forest.map Token.reset scope' = new := by
  induction rescoped generalizing first second with
  | whole => exact ⟨first, second, .whole, left, right, shape_eq, shape_eq'⟩
  | inside before item after deeper ih =>
    -- The heads of both forests have the same shape, and the pass gives them the same roles.
    have reset := congrArg Forest.heads shape_eq
    have reset' := congrArg Forest.heads shape_eq'
    rw [Forest.heads_map, Forest.heads_append, Forest.heads_cons] at reset reset'
    obtain ⟨own, inner⟩ := List.forall_mem_cons.mp left
    obtain ⟨own', inner'⟩ := List.forall_mem_cons.mp right
    have heads_eq : first.heads = second.heads := by
      rw [own, own', reset, reset']
      rfl
    obtain ⟨front, back, rfl, rfl, behind⟩ := Forest.exists_of_map_eq_append shape_eq
    obtain ⟨head, within, back, rfl, rfl, rfl, rfl⟩ := Forest.exists_of_map_eq_group behind
    obtain ⟨front', back', rfl, front_eq, behind'⟩ := Forest.exists_of_map_eq_append shape_eq'
    obtain ⟨head', within', back', rfl, -, rfl, back_eq⟩ := Forest.exists_of_map_eq_group behind'
    simp only [Forest.heads_append, Forest.heads_cons] at heads_eq
    -- So the two lists of heads are cut in the same place, and the trees under them agree.
    have length_eq : (Forest.heads front).length = (Forest.heads front').length := by
      simpa [Forest.heads, Forest.map_eq_map] using (congrArg List.length front_eq).symm
    obtain ⟨front_heads, later_heads⟩ := List.append_inj heads_eq length_eq
    obtain ⟨item_eq, back_heads⟩ := List.cons.inj later_heads
    obtain rfl : head = head' := item_eq
    simp only [Forest.insides_append, Forest.insides_group, List.forall_mem_append] at inner inner'
    obtain rfl := Forest.eq_of_labelled front_heads front_eq.symm inner.1 inner'.1
    obtain rfl := Forest.eq_of_labelled back_heads back_eq.symm inner.2.2 inner'.2.2
    obtain ⟨scope, scope', rescoped, labelled, labelled', old_eq, new_eq⟩ :=
      ih inner.2.1 inner'.2.1 rfl rfl
    exact ⟨scope, scope', .inside front head back rescoped, labelled, labelled', old_eq, new_eq⟩

/-- A space by itself is labelled. -/
theorem deeplyLabelled_space : DeeplyLabelled [.leaf .space] := by
  -- The only scope is the outermost one, and a space takes no role in it.
  intro scope member
  obtain rfl : scope = [.leaf .space] := by simpa [Forest.scopes] using member
  rfl

/-- Labelled scopes with a bracket around nothing and with a bracket around a space differ in the
roles of other tokens only if the bracket is not read alike. -/
theorem DeeplyLabelled.apart {bracket : Bracket} {before after scope scope' : Forest Token}
    (left : DeeplyLabelled scope) (right : DeeplyLabelled scope')
    (shape : Forest.map Token.reset scope = before ++ (Forest.ofEmpty bracket ++ after))
    (shape' : Forest.map Token.reset scope' = before ++ (Forest.ofApart bracket ++ after)) :
    ∃ front back front' back', scope = front ++ (Forest.ofEmpty bracket ++ back) ∧
      scope' = front' ++ (Forest.ofApart bracket ++ back') ∧
      Forest.map Token.reset front' = Forest.map Token.reset front ∧
      Forest.map Token.reset back' = Forest.map Token.reset back ∧
      (ReadAlike bracket (Forest.heads front) (Forest.heads back) →
        front' = front ∧ back' = back) := by
  obtain ⟨front, mark, rfl, rfl, behind⟩ := Forest.exists_of_map_eq_append shape
  obtain ⟨empty, back, rfl, reset, rfl⟩ := Forest.exists_of_map_eq_leaf behind
  obtain ⟨front', mark', rfl, front_eq, behind'⟩ := Forest.exists_of_map_eq_append shape'
  obtain ⟨opener, within, tail, rfl, reset', within_eq, closing⟩ :=
    Forest.exists_of_map_eq_group behind'
  obtain ⟨closer, back', rfl, reset'', behind''⟩ := Forest.exists_of_map_eq_leaf closing
  have back_eq : Forest.map Token.reset back' = Forest.map Token.reset back := behind''
  -- The pass over each of the scopes is cut at the bracket.
  obtain ⟨passed, passed', later, later', through_eq, through_eq', passed_eq, passed_eq', alike⟩ :=
    Pass.through_apart bracket ((Forest.heads front).map Token.reset)
      ((Forest.heads back).map Token.reset)
  obtain ⟨own, inner⟩ := List.forall_mem_cons.mp left
  obtain ⟨own', inner'⟩ := List.forall_mem_cons.mp right
  have heads_eq : (Forest.heads front').map Token.reset = (Forest.heads front).map Token.reset := by
    rw [← Forest.heads_map, ← Forest.heads_map, front_eq]
  have heads_eq' : (Forest.heads back').map Token.reset = (Forest.heads back).map Token.reset := by
    rw [← Forest.heads_map, ← Forest.heads_map, back_eq]
  simp only [Labelled, Forest.heads_append, Forest.heads_cons, Tree.item, List.map_append,
    List.map_cons, reset, reset', reset'', heads_eq, heads_eq', through_eq, through_eq'] at own own'
  -- The heads of each scope are what its pass gives, in front of the bracket and behind it.
  have length_eq : (Forest.heads front).length = passed.length := by
    simpa using (congrArg List.length passed_eq).symm
  have length_eq' : (Forest.heads front').length = passed'.length := by
    have same := congrArg List.length heads_eq
    have cut := congrArg List.length passed_eq'
    simp only [List.length_map] at same cut
    rw [same, cut]
  obtain ⟨rfl, marked⟩ := List.append_inj own length_eq
  obtain ⟨rfl, rfl⟩ := List.cons.inj marked
  obtain ⟨rfl, marked'⟩ := List.append_inj own' length_eq'
  obtain ⟨rfl, closed⟩ := List.cons.inj marked'
  obtain ⟨rfl, rfl⟩ := List.cons.inj closed
  simp only [Forest.insides_append, Forest.insides_group, Forest.insides_leaf,
    List.forall_mem_append] at inner inner'
  -- Inside the bracket stands a scope of its own, with nothing but the space.
  obtain rfl : within = [.leaf .space] :=
    DeeplyLabelled.eq inner'.2.1 deeplyLabelled_space within_eq
  refine ⟨front, back, front', back', rfl, rfl, front_eq, back_eq, fun read => ?_⟩
  -- Whoever reads the bracket alike has the same role, and so has what is inside of it.
  have twice (tokens : List Token) :
      tokens.map Token.reset = (tokens.map Token.reset).map Token.reset := by
    rw [List.map_map]
    rfl
  obtain ⟨front_heads, back_heads⟩ := alike (read.of_reset (twice _) (twice _))
  exact ⟨Forest.eq_of_labelled front_heads front_eq inner'.1 inner.1,
    Forest.eq_of_labelled back_heads back_eq inner'.2.2 inner.2⟩

/-- The text of a bracket around a space. -/
def Bracket.apart (bracket : Bracket) : String :=
  .ofList [bracket.opener, ' ', bracket.closer]

/-- A space inside of empty brackets makes a group of the one token that they are. Nothing else is
changed by it but roles in the scope that the brackets stand in, and these are changed only if the
brackets are not read alike. -/
theorem rescopes_apart {source before after : String} {token : Token} {bracket : Bracket}
    {options : Options} (stands : (analyse source options).forest.Stands before token after)
    (pair : token.state = .pair) (empty : token.value = bracket.empty) :
    ∃ front back front' back',
      Forest.Rescopes (front ++ (Forest.ofEmpty bracket ++ back))
        (front' ++ (Forest.ofApart bracket ++ back'))
        (Forest.map Token.unplaced (analyse source options).forest)
        (Forest.map Token.unplaced (analyse (before ++ bracket.apart ++ after) options).forest) ∧
      Forest.map Token.reset front' = Forest.map Token.reset front ∧
      Forest.map Token.reset back' = Forest.map Token.reset back ∧
      (ReadAlike bracket (Forest.heads front) (Forest.heads back) →
        front' = front ∧ back' = back) := by
  -- The text is cut at the brackets, and it is cut alike where the space comes in between.
  obtain ⟨earlier, later, items, rfl, rfl⟩ := stands
  have piece : token.piece = .ofEmpty bracket := by rw [Token.piece, pair, empty]; rfl
  have split := Token.pieces_analyse source options
  rw [Event.pieces_ofText, items, List.map_append, List.map_cons, piece] at split
  have parted := Piece.ofText_apart split.symm
  have spelled : Piece.chars (earlier.map Token.piece) ++ (Piece.chars (Piece.ofApart bracket) ++
      Piece.chars (later.map Token.piece)) =
        (Token.text earlier ++ bracket.apart ++ Token.text later).toList := by
    simp [Token.chars_pieces, Bracket.apart, String.toList_append]
  rw [spelled] at parted
  -- In shape the two forests differ in the trees of the bracket alone.
  obtain ⟨front, back, rescoped⟩ :=
    (Nest.splices_ofPieces bracket (earlier.map Token.piece) (later.map Token.piece)).forest
  rw [split, ← parted, ← unplaced_analyse source options,
    ← unplaced_analyse (Token.text earlier ++ bracket.apart ++ Token.text later) options]
    at rescoped
  -- The roles differ in the scope of the brackets at most, since every scope has its own pass.
  have labelled (source : String) :
      DeeplyLabelled (Forest.map Token.unplaced (analyse source options).forest) :=
    DeeplyLabelled.map_unplaced (Assembly.named_ofSource options source).forest
  obtain ⟨scope, scope', rescoped, left, right, shape, shape'⟩ :=
    rescoped.labelled (labelled _) (labelled _) rfl rfl
  obtain ⟨front, back, front', back', rfl, rfl, front_eq, back_eq, alike⟩ :=
    left.apart right shape shape'
  exact ⟨front, back, front', back', rescoped, front_eq, back_eq, alike⟩

/-- A call without arguments and a keyword behind it stay a call and a keyword. -/
theorem rescopes_of_call :
    (analyse "f() union $a").forest.Stands "f" (.ofState "()" .pair ⟨1, 3⟩) " union $a" ∧
      ∃ front back front' back',
        Forest.Rescopes (front ++ (Forest.ofEmpty .round ++ back))
          (front' ++ (Forest.ofApart .round ++ back'))
          (Forest.map Token.unplaced (analyse "f() union $a").forest)
          (Forest.map Token.unplaced (analyse "f( ) union $a").forest) ∧
        Forest.map Token.reset front' = Forest.map Token.reset front ∧
        Forest.map Token.reset back' = Forest.map Token.reset back ∧
        (ReadAlike .round (Forest.heads front) (Forest.heads back) →
          front' = front ∧ back' = back) := by
  -- The place of the brackets is seen in the tokens, and the theorem does the rest.
  have items : Forest.items (analyse "f() union $a").forest =
      [{ Token.ofState "f" (.word .bare) ⟨0, 1⟩ with kind := .function }] ++
        .ofState "()" .pair ⟨1, 3⟩ :: [.ofState " " .whitespace ⟨3, 4⟩,
          { Token.ofState "union" (.word .bare) ⟨4, 9⟩ with kind := .operator },
          .ofState " " .whitespace ⟨9, 10⟩, .ofState "$a" (.word .dollar) ⟨10, 12⟩] := by
    decide +kernel
  have stands : (analyse "f() union $a").forest.Stands "f" (.ofState "()" .pair ⟨1, 3⟩)
      " union $a" :=
    ⟨_, _, items, by decide +kernel, by decide +kernel⟩
  have text : "f" ++ Bracket.round.apart ++ " union $a" = "f( ) union $a" := by decide +kernel
  have rescoped := @rescopes_apart _ _ _ _ .round _ stands rfl (by decide +kernel)
  rw [text] at rescoped
  exact ⟨stands, rescoped⟩

/-- The name in front of empty brackets, and the one behind them, can take another role than a space
inside of the brackets would give to it. -/
theorem kinds_of_empty :
    (Forest.heads (analyse "map{}").forest).map Token.kind = [.plainName, .operator] ∧
      (Forest.heads (analyse "map{ }").forest).map Token.kind = [.operator, .operator, .operator] ∧
      (Forest.heads (analyse "if()").forest).map Token.kind = [.function, .operator] ∧
      (Forest.heads (analyse "if( )").forest).map Token.kind = [.operator, .operator, .operator] ∧
      (Forest.heads (analyse "[]union").forest).map Token.kind = [.operator, .plainName] ∧
      (Forest.heads (analyse "[ ]union").forest).map Token.kind =
        [.operator, .operator, .operator] := by
  decide +kernel

end XQueryLexer
