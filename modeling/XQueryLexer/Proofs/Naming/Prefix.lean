import Mathlib.Data.List.Basic
import XQueryLexer.Proofs.Naming.Alone
import XQueryLexer.Proofs.Naming.Apart
import XQueryLexer.Proofs.Nesting.Cut

/-! What comes before a token is read as it is read by itself, apart from one name that may still be
settled. -/

namespace XQueryLexer

namespace Token

/-- Whether a token is a name whose role a later token may still settle. -/
def isUnresolved (token : Token) : Bool :=
  token.state = .word .bare && token.kind.isUnresolvedName

/-- Of two new roles the second one stays. -/
theorem relabel_relabel (token : Token) (first second : Option Kind) :
    (token.relabel first).relabel second = token.relabel (second.or first) := by
  cases second <;> rfl

/-- A token that is the first word of a pair only while it is an unresolved name. -/
def PairsUnresolved (token : Token) : Prop :=
  token.state = .word .bare → ∀ word, isWordPair token.value word = true →
    token.isUnresolved = true

/-- The first word of a pair is one of three, and the second one is a keyword. -/
theorem words_of_isWordPair {first second : String} (pair : isWordPair first second = true) :
    first ∈ ["cast", "castable", "instance"] ∧ second ∈ keywords := by
  have member : (first, second) ∈ wordPairs := by simpa [isWordPair] using pair
  simp only [wordPairs, List.mem_cons, Prod.mk.injEq, List.not_mem_nil, or_false] at member
  -- Each of the three pairs is looked up on its own.
  rcases member with ⟨rfl, rfl⟩ | ⟨rfl, rfl⟩ | ⟨rfl, rfl⟩ <;> exact ⟨by decide, by decide⟩

/-- What is before a name can make it an operator, if it is a keyword, or the name of a type. -/
theorem operator_or_simpleType {token previous : Token} {kind : Kind}
    (given : (token.labelsAfter previous).current = some kind) :
    kind = .operator ∧ token.value ∈ keywords ∨ kind = .simpleType := by
  unfold labelsAfter at given
  split at given
  · cases given
  · split at given
    · split at given
      · -- The second word of a pair is a keyword as well.
        rename_i pair
        obtain rfl := Option.some.inj given
        exact .inl ⟨rfl, (words_of_isWordPair pair).2⟩
      · grind [Labels.none, Labels.currentOnly, Kind.ofKeyword?, Kind.afterOperator?]
    all_goals grind [Labels.none, Labels.currentOnly, Kind.ofKeyword?]

/-- The role that the first word of a pair takes leaves it unresolved. -/
theorem labelsAfter_of_isWordPair {token : Token} {word : String}
    (pair : isWordPair token.value word = true) (previous : Token) :
    ∀ kind ∈ (token.labelsAfter previous).current, kind.isUnresolvedName = true := by
  intro kind given
  rcases operator_or_simpleType given with ⟨-, keyword⟩ | rfl
  · -- None of the three words that can come first is a keyword.
    have free : ∀ first ∈ ["cast", "castable", "instance"], first ∉ keywords := by decide
    exact absurd keyword (free _ (words_of_isWordPair pair).1)
  · rfl

/-- Whatever a fresh token meets, it is the first word of a pair only while it is unresolved. -/
theorem pairsUnresolved_meet {token : Token} (fresh : token.reset = token) (kept : Option Token) :
    (meet kept token).2.PairsUnresolved := by
  intro named word pair
  have named : token.state = .word .bare := named
  -- A fresh word has the role of a plain name, and what it meets may give it one for good.
  have kind_eq : token.kind = .plainName := by
    have own := congrArg kind fresh
    rw [← own, reset, named]
    rfl
  obtain ⟨previous, met⟩ : ∃ previous,
      (meet kept token).2 = token.relabel (token.labelsAfter previous).current := ⟨_, rfl⟩
  have given := @labelsAfter_of_isWordPair token word pair previous
  rw [met, isUnresolved, relabel]
  simp only [named, decide_true, Bool.true_and]
  cases current : (token.labelsAfter previous).current with
  | none => rw [kind_eq]; rfl
  | some kind => exact given kind current

/-- A token gives another role to the name before it only as the second word of a pair. -/
theorem isWordPair_of_labelsAfter {token previous : Token}
    (given : (token.labelsAfter previous).previous ≠ none) :
    previous.state = .word .bare ∧ isWordPair previous.value token.value = true := by
  have named : previous.state = .word .bare := by
    by_contra other
    exact given (previous_labelsAfter other token)
  refine ⟨named, ?_⟩
  by_contra other
  refine given ?_
  -- Without a pair every rule is about the role of the token itself.
  rw [labelsAfter, named]
  simp only [if_neg other]
  split
  · rfl
  · cases previous.kind <;> rfl

/-- What follows a token gives it another role only if it is an unresolved name. -/
theorem exists_relabel_of_followedBy {token : Token} (pairs : token.PairsUnresolved)
    (next : Option Token) : ∃ kind, token.followedBy next = token.relabel kind ∧
      (kind ≠ none → token.isUnresolved = true) := by
  cases next with
  | none => exact ⟨none, rfl, by simp⟩
  | some next =>
    -- A name is settled only while it is unresolved.
    have settled : token.settledBy? next ≠ none → token.isUnresolved = true := by
      intro given
      by_contra resolved
      refine given (if_pos ?_)
      simpa [isUnresolved, imp_iff_not_or] using resolved
    -- Only the first word of a pair gets a role from the name behind it.
    generalize earlier_eq : token.relabel (token.settledBy? next) = earlier
    have paired : (next.labelsAfter earlier).previous ≠ none → token.isUnresolved = true := by
      intro given
      obtain ⟨named, pair⟩ := isWordPair_of_labelsAfter given
      subst earlier_eq
      exact pairs named next.value pair
    refine ⟨(next.labelsAfter earlier).previous.or (token.settledBy? next), ?_, ?_⟩
    · subst earlier_eq
      rw [← relabel_relabel]
      rfl
    · intro given
      by_cases later : (next.labelsAfter earlier).previous = none
      · rw [later, Option.none_or] at given
        exact settled given
      · exact paired later

end Token

namespace Pass

/-- The latest real token of a pass over fresh tokens is the first word of a pair only while it is
unresolved. -/
theorem pairsUnresolved_latest {tokens : List Token}
    (fresh : ∀ token ∈ tokens, token.reset = token) :
    ∀ token ∈ (tokens.foldl read start).latestToken?, token.PairsUnresolved := by
  induction tokens using List.reverseRecOn with
  | nil => simp [start, latestToken?]
  | append_singleton tokens token ih =>
    have earlier := ih fun other member => fresh other (List.mem_append_left _ member)
    obtain ⟨front, kept, layout, ⟨eq, -, -, -⟩⟩ := exists_reaches tokens
    rw [eq, latestToken?_ofSplit] at earlier
    rw [List.foldl_append, eq, List.foldl_cons, List.foldl_nil, read_ofSplit]
    cases real : token.isReal with
    | true =>
      -- The token has just met the latest real one, and it is the latest itself from now on.
      have own : (Token.meet kept token).2.isReal = true := real
      rw [push_ofSplit_real own, latestToken?_ofSplit]
      intro other same
      obtain rfl := Option.some.inj same
      exact Token.pairsUnresolved_meet (fresh token (by simp)) kept
    | false =>
      rw [Token.meet_layout real, push_ofSplit_layout real, latestToken?_ofSplit]
      exact earlier

/-- What is passed later gives a role to the latest real token at most, if that is unresolved. -/
theorem exists_relabel_tokens_foldl {front layout : List Token} {kept : Option Token}
    (pairs : ∀ token ∈ kept, token.PairsUnresolved) (later : List Token) :
    ∃ kind behind, (later.foldl read (ofSplit front kept layout)).tokens =
        front ++ ((kept.map (·.relabel kind)).toList ++ layout) ++ behind ∧
      (kind ≠ none → ∀ token ∈ kept, token.isUnresolved = true) := by
  -- Only the kept token is open to change: the front has been left behind, and layout has no role.
  obtain ⟨behind, tokens⟩ := @exists_tokens_foldl front layout kept later
  cases kept with
  | none => exact ⟨none, behind, tokens, by simp⟩
  | some token =>
    -- The kept token changes with the first real token behind it, whatever comes after that.
    obtain ⟨kind, followed, unresolved⟩ :=
      Token.exists_relabel_of_followedBy (pairs token rfl) (later.find? Token.isReal)
    refine ⟨kind, behind, ?_, by simpa using unresolved⟩
    rw [tokens, Option.map_some, Option.map_some, followed]

/-- A pass over tokens and more behind them gives the roles that it gives without those, apart from
the role of the latest real token if that is unresolved. -/
theorem exists_through_append {tokens : List Token} (fresh : ∀ token ∈ tokens, token.reset = token)
    (later : List Token) :
    ∃ (front layout behind : List Token) (kept : Option Token) (kind : Option Kind),
      through tokens = front ++ (kept.toList ++ layout) ∧
      through (tokens ++ later) =
        front ++ ((kept.map (·.relabel kind)).toList ++ layout) ++ behind ∧
      (∀ token ∈ kept, token.isReal = true) ∧ (∀ token ∈ layout, token.isReal = false) ∧
      (kind ≠ none → ∀ token ∈ kept, token.isUnresolved = true) := by
  have pairs := pairsUnresolved_latest fresh
  -- The later tokens are passed from the split that the others have reached.
  obtain ⟨front, kept, layout, ⟨eq, held, dark, -⟩⟩ := exists_reaches tokens
  rw [eq, latestToken?_ofSplit] at pairs
  obtain ⟨kind, behind, through_eq, unresolved⟩ := exists_relabel_tokens_foldl pairs later
  refine ⟨front, layout, behind, kept, kind, ?_, ?_, held, dark, unresolved⟩
  · rw [through, eq, ofSplit, List.append_assoc]
  · rw [through, List.foldl_append, eq, through_eq]

end Pass

/-- A scope that is cut at its latest real tree and has no open bracket at its end. -/
structure Scope.Innermost (scope : Scope) : Prop extends scope.Split where
  /-- The last tree is no group, so that nothing that comes later is inside it. -/
  ended : ∀ tree ∈ scope.trees.getLast?, tree.isGroup = false

/-- A forest as it is read before what follows it is known, and as that leaves it: in the innermost
scope that is still open, the latest real token may get another role if it is an unresolved name. -/
inductive Forest.Settles : Forest Token → Forest Token → Prop where
  | innermost (scope : Scope) (kind : Option Kind) (cut : scope.Innermost)
      (unresolved : kind ≠ none → ∀ token ∈ scope.latestToken?, token.isUnresolved = true) :
    Settles scope.trees (scope.mapLatest (·.relabel kind)).trees
  | inside (before : Forest Token) (opener : Token) {early late : Forest Token}
      (deeper : Settles early late) :
    Settles (before ++ [.group opener early]) (before ++ [.group opener late])

/-- A list of trees whose heads are cut at one of them is a scope that is cut there. -/
theorem Scope.exists_of_heads_eq {forest : Forest Token} {front layout : List Token}
    {kept : Option Token} (heads_eq : forest.heads = front ++ (kept.toList ++ layout)) :
    ∃ scope : Scope, scope.trees = forest ∧ scope.pass = .ofSplit front kept layout ∧
      scope.latestToken? = kept ∧ Forest.heads scope.layout.toList = layout := by
  -- The cut of the heads is a cut of the trees, since each tree has one head.
  obtain ⟨settled, later, rfl, rfl, later_eq⟩ := List.map_eq_append_iff.mp heads_eq
  obtain ⟨held, waiting, rfl, kept_eq, rfl⟩ := List.map_eq_append_iff.mp later_eq
  cases kept with
  | none =>
    obtain rfl := List.map_eq_nil_iff.mp kept_eq
    exact ⟨⟨settled.toArray, none, waiting.toArray⟩, by simp [trees_eq], rfl, rfl, rfl⟩
  | some token =>
    -- A head that is kept is the head of exactly one tree.
    obtain ⟨tree, rfl, rfl⟩ := List.map_eq_singleton_iff.mp kept_eq
    exact ⟨⟨settled.toArray, some tree, waiting.toArray⟩, by simp [trees_eq], rfl, rfl, rfl⟩

/-- Two labelled scopes, where one has as many heads as are in front of the other and of the same
classes, have the same heads there, apart from the latest real one if that is unresolved. -/
theorem Labelled.exists_heads {early ahead back : Forest Token} (left : Labelled early)
    (right : Labelled (ahead ++ back))
    (same : early.heads.map Token.reset = ahead.heads.map Token.reset) :
    ∃ (front layout : List Token) (kept : Option Token) (kind : Option Kind),
      early.heads = front ++ (kept.toList ++ layout) ∧
      ahead.heads = front ++ ((kept.map (·.relabel kind)).toList ++ layout) ∧
      (∀ token ∈ kept, token.isReal = true) ∧ (∀ token ∈ layout, token.isReal = false) ∧
      (kind ≠ none → ∀ token ∈ kept, token.isUnresolved = true) := by
  -- The pass over the longer scope goes on from that over the shorter one.
  obtain ⟨front, layout, behind, kept, kind, through_eq, longer, held, dark, unresolved⟩ :=
    Pass.exists_through_append Token.reset_of_mem_map (back.heads.map Token.reset)
  rw [← same, ← left] at through_eq
  rw [← List.map_append, ← Forest.heads_append, ← right, Forest.heads_append] at longer
  refine ⟨front, layout, kept, kind, through_eq, ?_, held, dark, unresolved⟩
  -- The two lists have the same length, so that the longer one is cut in the same place.
  refine (List.append_inj longer ?_).1
  have length_eq := congrArg List.length same
  rw [List.length_map, List.length_map, through_eq] at length_eq
  rw [← length_eq]
  cases kept <;> simp

namespace Forest

variable {early late : Forest Token} {count : Nat}

/-- A forest has the roles of a longer one where its last head is no name. -/
theorem heads_eq_of_last {ahead back before : Forest Token} {tree : Tree Token}
    (left : Labelled (before ++ [tree])) (right : Labelled (ahead ++ back))
    (same : (heads (before ++ [tree])).map Token.reset = (heads ahead).map Token.reset)
    (real : tree.item.isReal = true) (resolved : tree.item.isUnresolved = false) :
    heads (before ++ [tree]) = heads ahead := by
  obtain ⟨front, layout, kept, kind, heads_eq, heads_eq', held, dark, unresolved⟩ :=
    left.exists_heads right same
  rw [heads_eq, heads_eq']
  by_cases given : kind = none
  · rw [given]
    cases kept <;> rfl
  · cases kept with
    | none => rfl
    | some token =>
      -- The token at the cut is the last one, because that is real.
      have last := congrArg List.getLast? heads_eq
      rcases List.eq_nil_or_concat layout with rfl | ⟨waiting, other, rfl⟩
      · obtain rfl : tree.item = token := by simpa using last
        exact absurd (unresolved given _ rfl) (by simp [resolved])
      · obtain rfl : tree.item = other := by simpa [List.getLast?_cons] using last
        exact absurd (dark tree.item (by simp)) (by simp [real])

/-- A labelled forest that does not end in an open bracket is read as the first trees of another one
with the same shape are, apart from one name. -/
theorem settles_append {ahead back : Forest Token} (left : DeeplyLabelled early)
    (right : DeeplyLabelled (ahead ++ back)) (shape : map Token.reset early = map Token.reset ahead)
    (ended : ∀ tree ∈ early.getLast?, tree.isGroup = false) : Settles early ahead := by
  obtain ⟨own, inner⟩ := List.forall_mem_cons.mp left
  obtain ⟨own', inner'⟩ := List.forall_mem_cons.mp right
  rw [insides_append, List.forall_mem_append] at inner'
  obtain ⟨front, layout, kept, kind, heads_eq, heads_eq', held, dark, unresolved⟩ :=
    own.exists_heads own' (by rw [← heads_map, ← heads_map, shape])
  obtain ⟨scope, rfl, pass_eq, rfl, rfl⟩ := Scope.exists_of_heads_eq heads_eq
  -- Once the latest real token has its role, the heads agree, and with them all the trees.
  have same : (scope.mapLatest (·.relabel kind)).trees = ahead := by
    refine eq_of_labelled ?_ ?_ ?_ inner'.1
    · have front_eq : heads scope.settled.toList = front := by
        simpa [Scope.pass, Pass.ofSplit] using congrArg Pass.tokens pass_eq
      rw [← Scope.tokens_pass, Scope.pass_mapLatest, heads_eq', front_eq]
      simp [Pass.ofSplit]
    · have hidden (token : Token) : (token.relabel kind).reset = token.reset := rfl
      exact (scope.shape_mapLatest hidden).trans shape
    · rw [scope.insides_mapLatest]
      exact inner
  rw [← same]
  exact .innermost scope kind ⟨⟨held, dark⟩, ended⟩ unresolved

/-- A forest with the shape of what comes first in another one ends where that is cut. -/
theorem exists_of_map_eq_cut {before : Forest Token} {tree : Tree Token}
    (shape : map Token.reset (before ++ [tree]) = map Token.reset (cut count late)) :
    ∃ front whole back inside, late = front ++ [whole] ++ back ∧
      cut count late = front ++ [Tree.cut inside whole] ∧
      map Token.reset before = map Token.reset front ∧
      tree.map Token.reset = (Tree.cut inside whole).map Token.reset := by
  -- The shape tells where the last tree of the cut stands, and that this is cut inside, if at all.
  have shape := shape.symm
  rw [map_append] at shape
  obtain ⟨front, last, cut_eq, front_eq, last_eq⟩ := exists_of_map_eq_append shape
  rw [map_eq_map, map_eq_map, List.map_singleton] at last_eq
  obtain ⟨other, rfl, tree_eq⟩ := List.map_eq_singleton_iff.mp last_eq
  obtain ⟨whole, back, inside, rfl, rfl⟩ := exists_of_cut_eq cut_eq
  exact ⟨front, whole, back, inside, by simp, cut_eq, front_eq.symm, tree_eq.symm⟩

/-- Two labelled forests that have the same shape up to a bracket are the same up to there, and what
is inside of the bracket is labelled in both of them. -/
theorem eq_of_opened {before front inside within back : Forest Token} {opener token : Token}
    {bracket : Bracket} (left : DeeplyLabelled (before ++ [.group opener inside]))
    (right : DeeplyLabelled (front ++ [.group token within] ++ back))
    (shape : map Token.reset before = map Token.reset front)
    (head_eq : opener.reset = token.reset) (opened : opener.state = .opening bracket) :
    before = front ∧ opener = token ∧ DeeplyLabelled inside ∧ DeeplyLabelled within := by
  obtain ⟨own, inner⟩ := List.forall_mem_cons.mp left
  obtain ⟨own', inner'⟩ := List.forall_mem_cons.mp right
  -- A bracket is no name, so that the heads agree up to the bracket.
  have heads_eq : heads (before ++ [.group opener inside]) =
      heads (front ++ [.group token within]) := by
    refine heads_eq_of_last own own' ?_ ?_ ?_
    · simp only [heads_append, List.map_append, ← heads_map, shape]
      exact congrArg (_ ++ [·]) head_eq
    · simp [Tree.item, Token.isReal, opened, LexState.isReal]
    · simp [Tree.item, Token.isUnresolved, opened]
  simp only [heads_append, heads_cons, heads_nil, Tree.item] at heads_eq
  obtain ⟨front_heads, token_heads⟩ := List.append_inj' heads_eq rfl
  -- With their heads and their shape, so do all the trees in front of it.
  simp only [insides_append, insides_group, insides_nil, List.append_nil,
    List.forall_mem_append] at inner inner'
  exact ⟨eq_of_labelled front_heads shape inner.1 inner'.1.1, (List.cons.inj token_heads).1,
    inner.2, inner'.1.2⟩

/-- A labelled forest with the shape of what comes first in another one is read as that is, apart
from one name. -/
theorem settles_cut (left : DeeplyLabelled early) (right : DeeplyLabelled late)
    (opens : ∀ scope ∈ scopes early, ∀ tree ∈ scope, tree.isGroup = true →
      ∃ bracket : Bracket, tree.item.state = .opening bracket)
    (shape : map Token.reset early = map Token.reset (cut count late)) :
    Settles early (cut count late) := by
  -- The induction is on the number of tokens, which gets less towards the innermost scope.
  induction size : (items early).length using Nat.strongRecOn generalizing early late count with
  | ind size ih =>
    rcases List.eq_nil_or_concat' early with rfl | ⟨before, tree, rfl⟩
    · -- Where nothing is read before, nothing comes first.
      have nothing : cut count late = [] := by
        rw [map_eq_map, map_eq_map] at shape
        exact List.map_eq_nil_iff.mp shape.symm
      rw [nothing]
      exact @settles_append [] [] late left right rfl (by simp)
    · obtain ⟨front, whole, back, inside, rfl, cut_eq, front_eq, tree_eq⟩ :=
        exists_of_map_eq_cut shape
      cases tree with
      | leaf item =>
        -- The cut leaves the last token as it is, so that these are the first trees.
        cases whole with
        | group token late => simp [Tree.cut, Tree.map] at tree_eq
        | leaf token =>
          rw [cut_eq] at shape ⊢
          exact settles_append left right shape (by simp [Tree.isGroup])
      | group opener early =>
        cases whole with
        | leaf token => simp [Tree.cut, Tree.map] at tree_eq
        | group token late =>
          simp only [Tree.cut, Tree.map, Tree.group.injEq] at tree_eq
          obtain ⟨bracket, opened⟩ : ∃ bracket : Bracket, opener.state = .opening bracket :=
            opens _ List.mem_cons_self (.group opener early) (by simp) rfl
          -- Everything up to the bracket is the same, and inside of it there are fewer tokens.
          obtain ⟨rfl, rfl, inner, inner'⟩ := eq_of_opened left right front_eq tree_eq.1 opened
          rw [cut_eq]
          refine .inside before opener (ih _ ?_ inner inner' ?_ tree_eq.2 rfl)
          · simp only [← size, items_append, items, Tree.items, List.length_append,
              List.length_cons]
            omega
          · intro scope member
            refine opens scope (List.mem_cons_of_mem _ ?_)
            rw [insides_append, insides_group]
            exact List.mem_append_right _ (List.mem_append_left _ member)

end Forest

section Source

variable {source : String} {options : Options} {earlier later : List Token} {token : Token}

/-- In front of a token a source is nested as the text before the token is by itself. -/
theorem map_reset_cut
    (split : Forest.items (analyse source options).forest = earlier ++ later) :
    Forest.map Token.reset (analyse (Token.text earlier) options).forest =
      Forest.map Token.reset (Forest.cut earlier.length (analyse source options).forest) := by
  have pieces := (Token.pieces_analyse source options).trans (Event.pieces_ofText 0 _)
  rw [split, List.map_append] at pieces
  -- The nest of the source goes on from that of the text before the token.
  have early := map_reset_analyse (Token.text earlier) options
  rw [Nest.forest_ofText, Piece.ofText_earlier split] at early
  have late := map_reset_analyse source options
  rw [Nest.forest_ofText, ← pieces, Event.ofPieces_append, List.foldl_append] at late
  -- That text has as many tokens as there are before the token.
  have length_eq : (Forest.items (Forest.map Token.reset
      (analyse (Token.text earlier) options).forest)).length = earlier.length := by
    have own := congrArg List.length (Token.pieces_analyse (Token.text earlier) options)
    rw [Event.pieces_ofText, Piece.ofText_earlier split] at own
    simpa [Forest.items_map] using own
  rw [← Forest.cut_map, late, ← length_eq, early, Nest.cut_foldl_absorb]

/-- What comes before a token of a source is read as the text before the token is by itself, with
the same nesting and the same tokens, apart from the latest real token of the innermost scope that
is open there. It may get another role if it is an unresolved name. -/
theorem settles_analyse
    (split : Forest.items (analyse source options).forest = earlier ++ token :: later) :
    source = Token.text earlier ++ token.value ++ Token.text later ∧
      (source.utf8ByteSize < UInt32.size →
        token.span.start.toNat = (Token.text earlier).utf8ByteSize) ∧
      Forest.items (Forest.cut earlier.length (analyse source options).forest) = earlier ∧
      Forest.Settles (analyse (Token.text earlier) options).forest
        (Forest.cut earlier.length (analyse source options).forest) := by
  -- The text comes first: what the tokens spell is the source, so the split of the one splits the
  -- other.
  have whole := Token.text_items source options
  rw [split, Token.text_append, Token.text_cons, ← String.append_assoc] at whole
  refine ⟨whole.symm, fun small => start_of_split small split, ?_, ?_⟩
  · rw [Forest.items_cut, split, List.take_left]
  · -- Both forests are labelled, and they have the same shape up to the cut.
    have labelled (source : String) : DeeplyLabelled (analyse source options).forest :=
      (Assembly.named_ofSource options source).forest
    refine Forest.settles_cut (labelled _) (labelled _) ?_ (map_reset_cut split)
    intro scope within tree member group
    exact (isGroup_iff_opening within member).mp group

end Source

/-- A name inside a bracket may still become an operator with the name behind it. -/
theorem settles_of_cast :
    Forest.items (analyse "f(cast as b").forest =
        [{ Token.ofState "f" (.word .bare) ⟨0, 1⟩ with kind := .function },
          .ofState "(" (.opening .round) ⟨1, 2⟩,
          { Token.ofState "cast" (.word .bare) ⟨2, 6⟩ with kind := .operator },
          .ofState " " .whitespace ⟨6, 7⟩] ++
          { Token.ofState "as" (.word .bare) ⟨7, 9⟩ with kind := .operator } ::
            [.ofState " " .whitespace ⟨9, 10⟩,
              { Token.ofState "b" (.word .bare) ⟨10, 11⟩ with kind := .simpleType }] ∧
      Forest.Settles
        [.leaf { Token.ofState "f" (.word .bare) ⟨0, 1⟩ with kind := .function },
          .group (.ofState "(" (.opening .round) ⟨1, 2⟩)
            [.leaf (.ofState "cast" (.word .bare) ⟨2, 6⟩),
              .leaf (.ofState " " .whitespace ⟨6, 7⟩)]]
        [.leaf { Token.ofState "f" (.word .bare) ⟨0, 1⟩ with kind := .function },
          .group (.ofState "(" (.opening .round) ⟨1, 2⟩)
            [.leaf { Token.ofState "cast" (.word .bare) ⟨2, 6⟩ with kind := .operator },
              .leaf (.ofState " " .whitespace ⟨6, 7⟩)]] := by
  -- The three runs are evaluated, and the theorem relates the forests that they give.
  have items : Forest.items (analyse "f(cast as b").forest =
      [{ Token.ofState "f" (.word .bare) ⟨0, 1⟩ with kind := .function },
        .ofState "(" (.opening .round) ⟨1, 2⟩,
        { Token.ofState "cast" (.word .bare) ⟨2, 6⟩ with kind := .operator },
        .ofState " " .whitespace ⟨6, 7⟩] ++
        { Token.ofState "as" (.word .bare) ⟨7, 9⟩ with kind := .operator } ::
          [.ofState " " .whitespace ⟨9, 10⟩,
            { Token.ofState "b" (.word .bare) ⟨10, 11⟩ with kind := .simpleType }] := by
    decide +kernel
  have settles := (settles_analyse items).2.2.2
  have early : (analyse "f(cast ").forest =
      [.leaf { Token.ofState "f" (.word .bare) ⟨0, 1⟩ with kind := .function },
        .group (.ofState "(" (.opening .round) ⟨1, 2⟩)
          [.leaf (.ofState "cast" (.word .bare) ⟨2, 6⟩),
            .leaf (.ofState " " .whitespace ⟨6, 7⟩)]] := by
    decide +kernel
  have late : Forest.cut 4 (analyse "f(cast as b").forest =
      [.leaf { Token.ofState "f" (.word .bare) ⟨0, 1⟩ with kind := .function },
        .group (.ofState "(" (.opening .round) ⟨1, 2⟩)
          [.leaf { Token.ofState "cast" (.word .bare) ⟨2, 6⟩ with kind := .operator },
            .leaf (.ofState " " .whitespace ⟨6, 7⟩)]] := by
    decide +kernel
  refine ⟨items, ?_⟩
  rw [← early, ← late]
  exact settles

end XQueryLexer
