import XQueryLexer.Proofs.Nesting.Nest
import XQueryLexer.Proofs.Nesting.Siblings

/-! Brackets are well nested in the forest of every source, however badly the source nests them. -/

namespace XQueryLexer

variable {token : Token} {bracket : Bracket}

/-- A token that is no bracket fits behind every scope with room for it. -/
theorem fits_plain {container : Option Token} {siblings : Forest Token} (ended : Ended siblings)
    (apart : token.state.isBracket = false) (right : token.error = false) :
    Fits container siblings (.leaf token) where
  group_iff := by
    cases state : token.state <;> simp_all [Tree.isGroup, Tree.item, LexState.isBracket]
  -- Only the group at the end of the scope could ask for a closing bracket, and there is none.
  closed last := absurd last (ended _ _)
  closes closing _ := by simp_all [Tree.item, LexState.isBracket]
  error_closing wrong := by simp_all [Tree.item]
  stray wrong := by simp_all [Tree.item]

/-- A token that opens a bracket fits with its scope behind every scope with room for it. -/
theorem fits_opener {container : Option Token} {siblings inside : Forest Token}
    (ended : Ended siblings) (opens : token.state = .opening bracket)
    (right : token.error = false) : Fits container siblings (.group token inside) where
  -- A group is told by its head, and what is inside it does not matter here.
  group_iff := by simp [Tree.isGroup, Tree.item, opens]
  closed last := absurd last (ended _ _)
  closes closing _ := by simp_all [Tree.item]
  error_closing wrong := by simp_all [Tree.item]
  stray wrong := by simp_all [Tree.item]

/-- A token that closes a bracket fits behind that bracket. -/
theorem fits_closer (container : Option Token) (siblings : Forest Token) {inside : Forest Token}
    {opener : Token} (opens : opener.state = .opening bracket) (filled : inside ≠ [])
    (closes : token.state = .closing bracket) (right : token.error = false) :
    Fits container (siblings ++ [.group opener inside]) (.leaf token) where
  group_iff := by simp [Tree.isGroup, Tree.item, closes]
  closed {other within} last := by
    -- The group before it is the one that it closes.
    obtain ⟨rfl, rfl⟩ : opener = other ∧ inside = within := by simpa using last
    exact ⟨filled, token, rfl, right, by simp [opens, closes, LexState.closedBy?]⟩
  closes _ _ := ⟨opener, inside, by simp, by simp [Tree.item, opens, closes, LexState.closedBy?]⟩
  error_closing _ := ⟨bracket, closes⟩
  stray wrong := by simp_all [Tree.item]

/-- A token that closes nothing fits as an error behind every scope with room for it. -/
theorem fits_stray {container : Option Token} {siblings : Forest Token} (ended : Ended siblings)
    (closes : token.state = .closing bracket)
    (apart : ∀ opener, container = some opener → opener.state.closedBy? ≠ some token.state) :
    Fits container siblings (.leaf { token with error := true }) where
  group_iff := by simp [Tree.isGroup, Tree.item, closes]
  closed last := absurd last (ended _ _)
  closes _ right := by simp [Tree.item] at right
  error_closing _ := ⟨bracket, closes⟩
  -- The mark makes it an error, which it may be because the container waits for another bracket.
  stray _ inner := apart _ inner

namespace Nest

/-- The token that opened the innermost of some open brackets. -/
def container? (levels : List Level) : Option Token :=
  levels.head?.map Level.opener

/-- Open brackets in scopes that are well nested and have room for another tree. -/
inductive Standing : List Level → Prop
  | nil : Standing []
  | cons {level : Level} {outer : List Level} (opens : level.opener.state = .opening level.bracket)
      (right : level.opener.error = false) (deep : DeeplyNested (container? outer) level.before)
      (ended : Ended level.before) (around : Standing outer) : Standing (level :: outer)

/-- A nest in which every scope so far is well nested and has room for another tree. -/
structure Sound (nest : Nest) : Prop where
  /-- The scopes around the open brackets are sound. -/
  standing : Standing nest.levels
  /-- The innermost scope is well nested. -/
  deep : DeeplyNested (container? nest.levels) nest.inside
  /-- The innermost scope has room for another tree. -/
  ended : Ended nest.inside

variable {nest : Nest}

/-- Nothing is wrong before the first token. -/
theorem sound_initial (collecting : Bool) : (initial collecting).Sound :=
  ⟨.nil, .empty, by simp [initial, Ended]⟩

/-- Reporting a fault leaves a nest as sound as it is. -/
theorem Sound.report (sound : nest.Sound) (diagnostic : Diagnostic) :
    (nest.report diagnostic).Sound := by
  -- The levels and the inside stay, whether the fault is recorded or not.
  unfold Nest.report
  split
  · exact ⟨sound.standing, sound.deep, sound.ended⟩
  · exact sound

/-- A token by itself can be placed where it fits. -/
theorem Sound.place (sound : nest.Sound)
    (fits : Fits (container? nest.levels) nest.inside (.leaf token)) : (nest.place token).Sound :=
  -- The levels stay, the tree fits into the innermost scope, and a leaf may end that.
  ⟨sound.standing, sound.deep.concat_leaf fits, ended_concat_leaf _ _⟩

/-- A closing bracket that closes nothing can be reported and placed as an error. -/
theorem Sound.placeStray (sound : nest.Sound) (diagnostic : Diagnostic)
    (closes : token.state = .closing bracket)
    (apart : ∀ opener, container? nest.levels = some opener →
      opener.state.closedBy? ≠ some token.state) :
    ((nest.report diagnostic).place { token with error := true }).Sound := by
  -- A report changes no level, so the container is the one it was.
  have reported := sound.report diagnostic
  refine reported.place (fits_stray reported.ended closes ?_)
  rwa [levels_report]

/-- A bracket can be opened everywhere. -/
theorem Sound.openBracket (sound : nest.Sound) (opens : token.state = .opening bracket)
    (right : token.error = false) : (nest.openBracket bracket token).Sound :=
  -- The new scope is empty, and the one around it waits for the new bracket to be closed.
  ⟨.cons opens right sound.deep sound.ended sound.standing, .empty,
    by simp [Nest.openBracket, Ended]⟩

/-- A closing bracket can be taken in everywhere, if what it closes has something inside. -/
theorem Sound.closeBracket (sound : nest.Sound) (closes : token.state = .closing bracket)
    (right : token.error = false)
    (filled : ∀ level outer, nest.levels = level :: outer → level.bracket = bracket →
      nest.inside ≠ []) : (nest.closeBracket bracket token).Sound := by
  have standing := sound.standing
  have deep := sound.deep
  unfold Nest.closeBracket
  cases levels : nest.levels with
  | nil =>
    -- Outside every bracket there is no container that it could have closed.
    refine sound.placeStray _ closes ?_
    simp [levels, container?]
  | cons level outer =>
    rw [levels] at standing deep
    cases standing with
    | cons opens blameless before ended around =>
      dsimp only
      by_cases same : level.bracket = bracket
      · -- The bracket becomes a tree of the scope around it, and the token stands behind that.
        rw [if_pos same]
        subst same
        have inner : DeeplyNested (some level.opener) nest.inside := deep
        have folded : DeeplyNested (container? outer) (level.fold nest.inside) :=
          before.concat_group (fits_opener ended opens blameless) inner
        have fits := fits_closer (container? outer) level.before opens
          (filled level outer levels rfl) closes right
        exact ⟨around, folded.concat_leaf fits, ended_concat_leaf _ _⟩
      · rw [if_neg same]
        refine sound.placeStray _ closes ?_
        intro opener inner
        obtain rfl : level.opener = opener := by simpa [levels, container?] using inner
        simpa [opens, closes, LexState.closedBy?] using same

/-- Where the source ends, every bracket that is still open becomes the last tree of its scope. -/
theorem Sound.forest (sound : nest.Sound) : DeeplyNested none nest.forest := by
  obtain ⟨standing, deep, -⟩ := sound
  unfold Nest.forest
  -- Folding one bracket after the other keeps what is inside the next one deeply nested.
  generalize nest.levels = levels at standing deep
  generalize nest.inside = inside at deep
  induction standing generalizing inside with
  | nil => exact deep
  | cons opens right before ended around ih =>
    rw [List.foldl_cons]
    exact ih _ (before.concat_group (fits_opener ended opens right) deep)

/-- A text that does not close the innermost bracket at once, where nothing is inside it yet. -/
def Expects (nest : Nest) (text : List Char) : Prop :=
  ∀ level outer, nest.levels = level :: outer → nest.inside = [] →
    text.head? ≠ some level.bracket.closer

/-- Where something is inside the innermost bracket, any text can follow. -/
theorem expects_of_filled (filled : nest.inside ≠ []) (text : List Char) : nest.Expects text :=
  -- Only an empty scope expects anything.
  fun _ _ _ nothing => absurd nothing filled

/-- A bracket that is closed, or not, leaves something in the innermost scope. -/
theorem inside_closeBracket (nest : Nest) (bracket : Bracket) (token : Token) :
    (nest.closeBracket bracket token).inside ≠ [] := by
  -- In each case the token itself is placed last.
  unfold closeBracket
  split
  · simp [place]
  · split <;> simp [place]

/-- A token that is no bracket leaves a sound nest sound, with something in its innermost scope. -/
theorem Sound.absorb_place (sound : nest.Sound) {state : LexState} (apart : state.isBracket = false)
    (start : Nat) (piece : List Char) : (nest.absorb (.ofPiece start piece state)).Sound ∧
      (nest.absorb (.ofPiece start piece state)).inside ≠ [] := by
  -- Every such class is placed in the same way.
  have placed (token : Token) (same : token.state = state) (right : token.error = false) :
      (nest.place token).Sound ∧ (nest.place token).inside ≠ [] := by
    subst same
    exact ⟨sound.place (fits_plain sound.ended apart right), by simp [Nest.place]⟩
  cases state with
  -- Brackets are what the hypothesis rules out.
  | opening bracket | closing bracket => simp [LexState.isBracket] at apart
  | _ => exact placed _ rfl rfl

/-- A lexeme leaves a sound nest sound, and an opening bracket is not closed at once behind it. -/
theorem Sound.absorb (sound : nest.Sound) {c : Char} {rest : List Char} {state : LexState}
    (expects : nest.Expects (c :: rest)) (starts : state.Starts c rest.head?) (start : Nat)
    (piece : List Char) : (nest.absorb (.ofPiece start piece state)).Sound ∧
      ∀ more, state.extent? rest = some more →
        (nest.absorb (.ofPiece start piece state)).Expects (rest.drop more) := by
  cases bracketed : state.isBracket with
  | true =>
    cases starts with
    | opener bracket opens apart start =>
      refine ⟨sound.openBracket rfl rfl, fun more extent level outer levels _ => ?_⟩
      -- An opening bracket and its closing one together would have been a lexeme of their own.
      obtain rfl := Option.some.inj extent
      obtain rfl : bracket = level.bracket := congrArg Level.bracket (List.cons.inj levels).1
      exact apart
    | closer bracket closes =>
      -- The text so far did not let the bracket close with nothing inside.
      refine ⟨sound.closeBracket rfl rfl fun level outer levels same nothing => ?_,
        fun more _ => expects_of_filled (inside_closeBracket nest bracket _) _⟩
      subst same closes
      exact expects level outer levels nothing rfl
    | _ => simp [LexState.isBracket] at bracketed
  | false =>
    obtain ⟨placed, filled⟩ := sound.absorb_place bracketed start piece
    exact ⟨placed, fun more _ => expects_of_filled filled _⟩

/-- The end of a text leaves a sound nest sound. -/
theorem Sound.foldl_ofEnd (sound : nest.Sound) (state : LexState) (offset : Nat) :
    ((Event.ofEnd state offset).foldl Nest.absorb nest).Sound := by
  -- All that can happen there is that a fault is reported.
  unfold Event.ofEnd
  cases state.unterminated? with
  | none => exact sound
  | some fault => exact sound.report _

/-- A text leaves a sound nest sound. -/
theorem Sound.foldl_ofText (offset : Nat) (text : List Char) :
    ∀ {nest : Nest}, nest.Sound → nest.Expects text →
      ((Event.ofText offset text).foldl Nest.absorb nest).Sound := by
  -- Besides the nest, the text that is left over has to be right for every next lexeme.
  fun_induction Event.ofText offset text with
  | case1 =>
    intro nest sound _
    exact sound
  | case2 offset c rest state more extent =>
    rename_i piece ih
    intro nest sound expects
    obtain ⟨absorbed, follows⟩ :=
      sound.absorb expects (LexState.starts_starting c rest.head?) offset piece
    exact ih absorbed (follows more extent)
  | case3 offset c rest state =>
    intro nest sound expects
    obtain ⟨absorbed, -⟩ :=
      sound.absorb expects (LexState.starts_starting c rest.head?) offset (c :: rest)
    exact absorbed.foldl_ofEnd _ _

/-- The nest of every text is sound. -/
theorem sound_ofText (collecting : Bool) (text : List Char) : (ofText collecting text).Sound := by
  -- The empty nest is sound and expects nothing, and reading a text keeps it sound.
  refine Sound.foldl_ofText 0 text (sound_initial collecting) ?_
  simp [Expects, initial]

end Nest

/-- Every scope of a source is well nested inside some container. -/
theorem exists_wellNested_analyse {source : String} {options : Options} {scope : Forest Token}
    (within : scope ∈ Forest.scopes (analyse source options).forest) :
    ∃ container, WellNested container scope := by
  -- The nest of the source is sound, and roles have no part in it.
  have sound := (Nest.sound_ofText options.collectDiagnostics source.toList).forest
  rw [← map_reset_analyse] at sound
  have deep : DeeplyNested none (analyse source options).forest :=
    .of_map Token.reset (fun _ => rfl) (fun _ => rfl) sound
  exact deep.exists_wellNested within

/-- Exactly the opening brackets of a source have trees inside them, or a place for trees. -/
theorem isGroup_iff_opening {source : String} {options : Options} {scope : Forest Token}
    (within : scope ∈ Forest.scopes (analyse source options).forest) {tree : Tree Token}
    (member : tree ∈ scope) :
    tree.isGroup = true ↔ ∃ bracket : Bracket, tree.item.state = .opening bracket := by
  -- This is one of the laws of a well-nested scope, which every scope of a source is.
  obtain ⟨container, nested⟩ := exists_wellNested_analyse within
  exact nested.group_iff member

/-- The forest of every source is well nested, outside every bracket and inside each one. -/
theorem deeplyNested_analyse (source : String) (options : Options) :
    DeeplyNested none (analyse source options).forest := by
  -- The roles that naming gives to tokens have no part in how they are nested.
  have sound := Nest.sound_ofText options.collectDiagnostics source.toList
  have deep := sound.forest
  rw [← map_reset_analyse] at deep
  exact DeeplyNested.of_map Token.reset (fun _ => rfl) (fun _ => rfl) deep

end XQueryLexer
