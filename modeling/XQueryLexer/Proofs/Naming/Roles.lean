import XQueryLexer.Proofs.Lexeme.Coverage
import XQueryLexer.Proofs.Naming.Prefix

/-! Every token has a class in which a lexeme can end, and a role that its class and its text
allow. -/

namespace XQueryLexer

/-- Whether a role is one of those that names can have. -/
def Kind.isNameRole : Kind → Bool
  | plainName | simpleType | function | axis | nodeType | declaration | operator => true
  | _ => false

namespace Token

/-- A name and a role that the tokens around it can give it. -/
structure Takes (token : Token) (kind : Kind) : Prop where
  /-- The token is a name. -/
  name : token.state = .word .bare
  /-- The role is one of a name. -/
  role : kind.isNameRole = true
  /-- Only some names can become operators. -/
  operator : kind = .operator →
    token.value ∈ keywords ∨ token.value ∈ ["cast", "castable", "instance"]

/-- A token whose role fits its class and its text. -/
structure HasRole (token : Token) : Prop where
  /-- Only a name can have another role than its class suggests. -/
  kind_eq : token.state ≠ .word .bare → token.kind = .ofState token.state
  /-- A name has one of the roles of names. -/
  name : token.state = .word .bare → token.kind.isNameRole = true
  /-- Only a keyword and the first word of a pair can be operators. -/
  operator : token.state = .word .bare → token.kind = .operator →
    token.value ∈ keywords ∨ token.value ∈ ["cast", "castable", "instance"]

/-- A token as it can come out of an analysis, whatever stands around it. -/
structure Classified (token : Token) : Prop extends token.HasRole where
  /-- The token has some text. -/
  filled : token.value ≠ ""
  /-- Its class is one of those in which lexemes end, and none that is only passed through. -/
  lexical : token.state.isLexical = true
  /-- Exactly the comments have no role at all. -/
  unset : token.kind = .unset ↔ token.state = .comment

variable {token previous : Token} {kind : Kind}

/-- The role of a name that arguments follow is one of a name, and no operator. -/
theorem takes_ofCall (name : previous.state = .word .bare) :
    previous.Takes (.ofCall previous.value) := by
  -- Neither a node type nor a function is an operator.
  unfold Kind.ofCall
  split <;> exact ⟨name, rfl, by simp⟩

/-- What the next real token settles is a role that the name can take. -/
theorem takes_of_settledBy? (given : previous.settledBy? token = some kind) :
    previous.Takes kind := by
  -- Only a name is ever settled by what follows.
  have name : previous.state = .word .bare := by
    by_contra other
    rw [settledBy?_mark other] at given
    cases given
  -- The words that brackets make operators are keywords.
  have listed {word : String} (same : previous.value = word) (keyword : word ∈ keywords) :
      previous.Takes .operator :=
    ⟨name, rfl, fun _ => .inl (same ▸ keyword)⟩
  unfold settledBy? at given
  split at given
  · cases given
  -- The class of the next token decides, and then the text of one of the two.
  split at given
  · simp only [Option.ite_none_right_eq_some, Option.some.injEq] at given
    obtain ⟨-, rfl⟩ := given
    exact ⟨name, rfl, by simp⟩
  · split at given
    · rename_i conditional
      obtain rfl := Option.some.inj given
      exact listed conditional (by decide)
    · obtain rfl := Option.some.inj given
      exact takes_ofCall name
  · split at given
    · simp only [Option.ite_none_right_eq_some, Option.some.injEq] at given
      obtain ⟨-, rfl⟩ := given
      exact ⟨name, rfl, by simp⟩
    · simp only [Option.ite_none_right_eq_some, Option.some.injEq] at given
      obtain ⟨-, rfl⟩ := given
      exact takes_ofCall name
  · simp only [Option.ite_none_right_eq_some, Option.some.injEq] at given
    obtain ⟨constructor, rfl⟩ := given
    exact listed constructor (by decide)
  · simp only [Option.ite_none_right_eq_some, Option.some.injEq, Bool.or_eq_true,
      decide_eq_true_eq] at given
    obtain ⟨constructor | constructor, rfl⟩ := given
    · exact listed constructor (by decide)
    · exact listed constructor (by decide)
  · cases given

/-- Two names that are a pair are operators. -/
theorem labelsAfter_pair (name : token.state = .word .bare) (before : previous.state = .word .bare)
    (pair : isWordPair previous.value token.value = true) :
    token.labelsAfter previous = ⟨some .operator, some .operator⟩ := by
  -- The pair is the first thing that is asked of two names.
  rw [labelsAfter, if_neg (by simp [name]), before]
  exact if_pos pair

/-- What a token gives to the name before it is a role that this can take. -/
theorem takes_of_previous (given : (token.labelsAfter previous).previous = some kind) :
    previous.Takes kind := by
  -- Only a pair of words reaches back, and then both words are operators.
  have given_ne : (token.labelsAfter previous).previous ≠ none := by
    rw [given]
    simp
  obtain ⟨before, pair⟩ := isWordPair_of_labelsAfter given_ne
  have name : token.state = .word .bare := by
    by_contra other
    rw [labelsAfter, if_pos other] at given
    cases given
  rw [labelsAfter_pair name before pair] at given
  obtain rfl := Option.some.inj given
  exact ⟨before, rfl, fun _ => .inr (words_of_isWordPair pair).1⟩

/-- What a name takes itself is a role that it can take. -/
theorem takes_of_current (given : (token.labelsAfter previous).current = some kind) :
    token.Takes kind := by
  have name : token.state = .word .bare := by
    by_contra other
    rw [labelsAfter, if_pos other] at given
    cases given
  -- A name takes a role of its own as an operator, or as the type behind one.
  rcases operator_or_simpleType given with ⟨rfl, keyword⟩ | rfl
  · exact ⟨name, rfl, fun _ => .inl keyword⟩
  · exact ⟨name, rfl, by simp⟩

/-- A token that is just found has the role that its class suggests. -/
theorem hasRole_of_reset (fresh : token.reset = token) : token.HasRole where
  -- Resetting gives the role of the class back, and for a name this is no operator.
  kind_eq _ := (congrArg Token.kind fresh).symm
  name name := by
    rw [← fresh, reset, name]
    rfl
  operator name operator := by
    rw [← fresh, reset, name] at operator
    cases operator

/-- A name can be given a role that it can take. -/
theorem HasRole.relabel (has : token.HasRole) {kind : Option Kind}
    (takes : ∀ new ∈ kind, token.Takes new) : (token.relabel kind).HasRole := by
  cases kind with
  -- Without a new role the token is the one it was.
  | none => exact has
  -- The new role fits a name, and nothing else can take it.
  | some new =>
    have given := takes new rfl
    exact ⟨fun other => absurd given.name other, fun _ => given.role, fun _ => given.operator⟩

/-- Two tokens that meet give each other roles that they can take. -/
theorem HasRole.meet (has : token.HasRole) {kept : Option Token}
    (held : ∀ previous ∈ kept, previous.HasRole) :
    (∀ previous ∈ (Token.meet kept token).1, previous.HasRole) ∧
      (Token.meet kept token).2.HasRole := by
  refine ⟨?_, has.relabel fun _ => takes_of_current⟩
  intro previous member
  cases kept with
  | none => simp [Token.meet] at member
  | some earlier =>
    obtain rfl : _ = previous := by simpa [Token.meet] using member
    -- The earlier token is settled first, and then it can be the first word of a pair.
    have settled := (held earlier rfl).relabel fun _ => @takes_of_settledBy? token earlier _
    exact settled.relabel fun _ => takes_of_previous

end Token

namespace Pass

/-- A pass whose tokens all have roles that fit them. -/
def HasRoles (pass : Pass) : Prop :=
  ∀ token ∈ pass.tokens, token.HasRole

/-- A token that is read leaves all tokens with roles that fit them. -/
theorem HasRoles.read {pass : Pass} (has : pass.HasRoles) {token : Token}
    (fresh : token.reset = token) : (pass.read token).HasRoles := by
  have held : ∀ previous ∈ pass.latestToken?, previous.HasRole := by
    intro previous member
    obtain ⟨place, -, found⟩ := Option.bind_eq_some_iff.mp member
    exact has previous (List.mem_of_getElem? found)
  obtain ⟨settled, labelled⟩ := (Token.hasRole_of_reset fresh).meet held
  intro other member
  rcases List.mem_append.mp member with earlier | added
  · -- Of the earlier tokens only the latest real one can have been replaced.
    unfold replace at earlier
    split at earlier
    · rename_i place previous found same
      rcases List.mem_or_eq_of_mem_set earlier with before | rfl
      · exact has other before
      · exact settled other same
    · exact has other earlier
  · rw [List.mem_singleton.mp added]
    exact labelled

/-- A pass gives each token a role that fits it. -/
theorem HasRoles.foldl {pass : Pass} (has : pass.HasRoles) {tokens : List Token}
    (fresh : ∀ token ∈ tokens, token.reset = token) : (tokens.foldl Pass.read pass).HasRoles := by
  -- One token after the other, each read by the same law.
  induction tokens generalizing pass with
  | nil => exact has
  | cons token rest ih =>
    obtain ⟨first, later⟩ := List.forall_mem_cons.mp fresh
    exact ih (has.read first) later

end Pass

/-- The tokens of a labelled scope have roles that fit them. -/
theorem Labelled.hasRole {scope : Forest Token} (labelled : Labelled scope) :
    ∀ token ∈ scope.heads, token.HasRole := by
  -- The scope is what one pass makes of its own tokens, reset, so the law of the pass applies.
  have start : Pass.start.HasRoles := by simp [Pass.HasRoles, Pass.start]
  rw [labelled]
  exact start.foldl Token.reset_of_mem_map

/-- Every piece of a text has a character and a class in which lexemes end. -/
theorem Piece.isLexical_of_mem {piece : Piece} {text : List Char} (member : piece ∈ ofText text) :
    piece.value ≠ "" ∧ piece.state.isLexical = true := by
  -- Induction along the scanner: a piece has its first character, and classes end lexically.
  fun_induction ofText text with
  | case1 => cases member
  | case2 c rest state more ih =>
    rcases List.mem_cons.mp member with rfl | later
    · exact ⟨by simp, LexState.starting_isLexical c rest.head?⟩
    · exact ih later

/-- A class in which lexemes end suggests no role exactly if it is that of comments. -/
theorem Kind.ofState_eq_unset_iff {state : LexState} (lexical : state.isLexical = true) :
    ofState state = unset ↔ state = .comment := by
  -- The classes are run through; those that only occur inside lexemes are ruled out first.
  cases state with
  | word sigil => cases sigil <;> simp [ofState]
  | initial | commentEnd | quoteEnd | quoteEscape | uriLiteralEnd | exponent | pairEnd =>
    cases lexical
  | _ => simp [ofState]

/-- Every token of a source has some text, a class in which a lexeme can end, and a role that its
class and its text allow. -/
theorem classified_analyse {source : String} {options : Options} {token : Token}
    (member : token ∈ Forest.items (analyse source options).forest) : token.Classified := by
  -- The text and the class are those of a piece, and the role comes from the pass over the scope.
  have piece : token.piece ∈ Piece.ofText source.toList := by
    rw [← Event.pieces_ofText 0, ← Token.pieces_analyse source options]
    exact List.mem_map_of_mem member
  obtain ⟨filled, lexical⟩ := Piece.isLexical_of_mem piece
  obtain ⟨scope, within, head⟩ := Forest.exists_scope_of_mem member
  have deep : DeeplyLabelled (analyse source options).forest :=
    (Assembly.named_ofSource options source).forest
  have has := (deep scope within).hasRole token head
  refine ⟨has, filled, lexical, ?_⟩
  by_cases name : token.state = .word .bare
  · -- No name is without a role, and no name is a comment.
    have role := has.name name
    constructor
    · intro unset
      rw [unset] at role
      cases role
    · intro comment
      rw [name] at comment
      cases comment
  · rw [has.kind_eq name]
    exact Kind.ofState_eq_unset_iff lexical

/-- The first word of a pair is an operator in front of the second one. -/
theorem classified_of_castable :
    { Token.ofState "castable" (.word .bare) ⟨3, 11⟩ with kind := .operator } ∈
        Forest.items (analyse "$a castable as b(: end").forest ∧
      { Token.ofState "castable" (.word .bare) ⟨3, 11⟩ with kind := .operator }.Classified := by
  -- That the token is one of the source is evaluated, and the rest is the theorem.
  have member : { Token.ofState "castable" (.word .bare) ⟨3, 11⟩ with kind := .operator } ∈
      Forest.items (analyse "$a castable as b(: end").forest := by
    decide +kernel
  exact ⟨member, classified_analyse member⟩

end XQueryLexer
