import XQueryLexer.Naming

/-! One pass over the tokens of a scope, in which each token meets the latest real one before it. -/

namespace XQueryLexer

namespace Token

/-- Without a new role a token is what it is. -/
@[simp] theorem relabel_none (token : Token) : token.relabel none = token := rfl

/-- What is left of the latest real token after a meeting is that token with some role. -/
theorem exists_of_mem_meet {kept : Option Token} {token other : Token}
    (member : other ∈ (meet kept token).1) :
    ∃ previous ∈ kept, other = previous.relabel (some other.kind) := by
  -- A meeting changes nothing of it but the role, perhaps twice.
  cases kept with
  | none => simp [meet] at member
  | some previous =>
    obtain rfl : _ = other := by simpa [meet] using member
    exact ⟨previous, rfl, rfl⟩

/-- A token without its place in the source. -/
def unplaced (token : Token) : Token :=
  { token with span := .null }

/-- The rules for roles do not look at the places of tokens. -/
theorem meet_unplaced (kept : Option Token) (token : Token) :
    meet (kept.map unplaced) token.unplaced =
      ((meet kept token).1.map unplaced, (meet kept token).2.unplaced) := by
  cases kept <;> rfl

/-- Layout settles nothing. -/
theorem settledBy?_layout {token : Token} (dark : token.isReal = false) (previous : Token) :
    previous.settledBy? token = none := by
  simp only [isReal] at dark
  unfold settledBy?
  split
  · rfl
  · -- Whitespace and comments are in none of the classes that settle a name.
    cases state : token.state <;> simp_all [LexState.isReal]

/-- Layout neither takes nor gives a role. -/
theorem labelsAfter_layout {token : Token} (dark : token.isReal = false) (previous : Token) :
    token.labelsAfter previous = .none := by
  -- Only names do, and a name is no layout.
  have other : token.state ≠ .word .bare := by
    rintro same
    simp [isReal, same, LexState.isReal] at dark
  rw [labelsAfter, if_pos other]

/-- Layout meets nothing. -/
theorem meet_layout {token : Token} (dark : token.isReal = false) (kept : Option Token) :
    meet kept token = (kept, token) := by
  cases kept <;> simp [meet, settledBy?_layout dark, labelsAfter_layout dark, Labels.none]

end Token

namespace Pass

/-- A pass whose tokens are cut at the latest real one. -/
def ofSplit (front : List Token) (kept : Option Token) (layout : List Token) : Pass :=
  ⟨front ++ kept.toList ++ layout, kept.map fun _ => front.length⟩

variable {front layout : List Token} {kept : Option Token} {token : Token}

/-- The latest real token is the one at the cut. -/
@[simp] theorem latestToken?_ofSplit : (ofSplit front kept layout).latestToken? = kept := by
  cases kept <;> simp [ofSplit, latestToken?]

/-- A token in the place of the latest real one stands at the cut. -/
theorem replace_ofSplit {other : Option Token} (same : other.isSome = kept.isSome) :
    (ofSplit front kept layout).replace other = ofSplit front other layout := by
  cases kept <;> cases other <;> simp_all [ofSplit, replace]

/-- A real token that is pushed is where the pass is cut from then on. -/
theorem push_ofSplit_real (real : token.isReal = true) :
    (ofSplit front kept layout).push token =
      ofSplit (front ++ kept.toList ++ layout) (some token) [] := by
  simp [ofSplit, push, real]

/-- Layout that is pushed stands behind the cut. -/
theorem push_ofSplit_layout (dark : token.isReal = false) :
    (ofSplit front kept layout).push token = ofSplit front kept (layout ++ [token]) := by
  simp [ofSplit, push, dark]

/-- A token that is read meets the latest real one, whatever stands around that. -/
theorem read_ofSplit (token : Token) : (ofSplit front kept layout).read token =
    (ofSplit front (Token.meet kept token).1 layout).push (Token.meet kept token).2 := by
  -- A meeting leaves a token there if one has been there.
  have same : (Token.meet kept token).1.isSome = kept.isSome := by
    simp [Token.meet]
  rw [read, latestToken?_ofSplit, replace_ofSplit same]

/-- What is in front of the latest real token has no part in a pass. -/
theorem tokens_foldl_ofSplit (tokens : List Token) :
    (tokens.foldl read (ofSplit front kept layout)).tokens =
      front ++ (tokens.foldl read (ofSplit [] kept layout)).tokens := by
  -- A real token moves what is before it to the front, and layout only grows behind it.
  induction tokens generalizing front kept layout with
  | nil => simp [ofSplit]
  | cons token rest ih =>
    rw [List.foldl_cons, List.foldl_cons, read_ofSplit, read_ofSplit]
    cases real : (Token.meet kept token).2.isReal with
    | true =>
      rw [push_ofSplit_real real, push_ofSplit_real real, ih,
        @ih ([] ++ _ ++ _) _ _]
      simp
    | false =>
      rw [push_ofSplit_layout real, push_ofSplit_layout real]
      exact ih

/-- The latest real token of a pass is left as the next real one makes it, whatever stands behind
that. -/
theorem exists_tokens_foldl (later : List Token) :
    ∃ behind, (later.foldl read (ofSplit front kept layout)).tokens =
      front ++ ((kept.map (·.followedBy (later.find? Token.isReal))).toList ++ layout) ++
        behind := by
  induction later generalizing layout with
  | nil => exact ⟨[], by cases kept <;> simp [ofSplit, Token.followedBy]⟩
  | cons next rest ih =>
    rw [List.foldl_cons, read_ofSplit]
    cases real : next.isReal with
    | true =>
      -- The next real token takes the place of the latest one, which is final from now on.
      have own : (Token.meet kept next).2.isReal = true := real
      have met : (Token.meet kept next).1 = kept.map (·.followedBy (some next)) := by
        cases kept <;> rfl
      rw [push_ofSplit_real own, tokens_foldl_ofSplit, met, List.find?_cons_of_pos real]
      exact ⟨_, by rw [List.append_assoc front]⟩
    | false =>
      -- Layout waits behind the latest real token.
      rw [Token.meet_layout real, push_ofSplit_layout real, List.find?_cons_of_neg (by simp [real])]
      obtain ⟨behind, tokens⟩ := @ih (layout ++ [next])
      exact ⟨next :: behind, by simpa using tokens⟩

/-- A pass over the real tokens alone gives the real tokens of a pass over all of them. -/
theorem tokens_foldl_filter (tokens : List Token) (held : ∀ token ∈ kept, token.isReal = true)
    (dark : ∀ token ∈ layout, token.isReal = false) :
    ((tokens.filter Token.isReal).foldl read (ofSplit (front.filter Token.isReal) kept [])).tokens =
      (tokens.foldl read (ofSplit front kept layout)).tokens.filter Token.isReal := by
  have nothing {layout : List Token} (dark : ∀ token ∈ layout, token.isReal = false) :
      layout.filter Token.isReal = [] := by
    simpa [List.filter_eq_nil_iff] using dark
  have whole {kept : Option Token} (held : ∀ token ∈ kept, token.isReal = true) :
      kept.toList.filter Token.isReal = kept.toList := by
    simpa [List.filter_eq_self] using held
  induction tokens generalizing front kept layout with
  | nil => simp [ofSplit, whole held, nothing dark]
  | cons token rest ih =>
    cases real : token.isReal with
    | true =>
      -- The token is passed on both sides, and what it meets is real before and after.
      have met : ∀ other ∈ (Token.meet kept token).1, other.isReal = true := by
        intro other member
        obtain ⟨previous, before, same⟩ := Token.exists_of_mem_meet member
        rw [same]
        exact held previous before
      have own : (Token.meet kept token).2.isReal = true := real
      rw [List.filter_cons_of_pos real, List.foldl_cons, List.foldl_cons, read_ofSplit,
        read_ofSplit, push_ofSplit_real own, push_ofSplit_real own,
        ← ih (by simpa using own) (by simp)]
      simp [whole met, nothing dark]
    | false =>
      -- Layout is left out on one side, and on the other it waits behind the latest real token.
      rw [List.filter_cons_of_neg (by simp [real]), List.foldl_cons, read_ofSplit,
        Token.meet_layout real, push_ofSplit_layout real]
      refine ih held ?_
      intro other member
      rcases List.mem_append.mp member with earlier | added
      · exact dark other earlier
      · rwa [List.mem_singleton.mp added]

/-- The real tokens of a scope have the roles that they would have without the layout. -/
theorem through_filter (tokens : List Token) :
    through (tokens.filter Token.isReal) = (through tokens).filter Token.isReal :=
  @tokens_foldl_filter [] [] none tokens (by simp) (by simp)

/-- A pass over tokens whose spans are forgotten. -/
def unplaced (pass : Pass) : Pass :=
  { pass with tokens := pass.tokens.map Token.unplaced }

/-- A token without its span is passed as the token itself is. -/
theorem read_unplaced (pass : Pass) (token : Token) :
    pass.unplaced.read token.unplaced = (pass.read token).unplaced := by
  -- Looking for the latest real token, replacing it and pushing another one do not look at spans.
  have latest : pass.unplaced.latestToken? = pass.latestToken?.map Token.unplaced := by
    cases place : pass.latest <;> simp [latestToken?, unplaced, place]
  have replaced (kept : Option Token) :
      pass.unplaced.replace (kept.map Token.unplaced) = (pass.replace kept).unplaced := by
    cases place : pass.latest <;> cases kept <;> simp [replace, unplaced, place, List.map_set]
  have pushed (pass : Pass) (token : Token) :
      pass.unplaced.push token.unplaced = (pass.push token).unplaced := by
    simp only [push, unplaced, List.map_append, List.length_map, List.map_singleton]
    rfl
  rw [read, latest, Token.meet_unplaced, replaced, pushed]
  rfl

/-- Where the tokens of a scope stand in the source does not matter for their roles. -/
theorem through_unplaced (tokens : List Token) :
    through (tokens.map Token.unplaced) = (through tokens).map Token.unplaced := by
  -- Token by token the pass is the same without spans.
  have passed (pass : Pass) : (tokens.map Token.unplaced).foldl read pass.unplaced =
      (tokens.foldl read pass).unplaced := by
    induction tokens generalizing pass with
    | nil => rfl
    | cons token rest ih => rw [List.map_cons, List.foldl_cons, read_unplaced, ih, List.foldl_cons]
  exact congrArg Pass.tokens (passed start)

end Pass

end XQueryLexer
