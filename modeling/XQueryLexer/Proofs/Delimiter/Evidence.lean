import XQueryLexer.Proofs.Lexeme.Coverage
import XQueryLexer.Proofs.Lexeme.Ending
import XQueryLexer.Proofs.Nesting.Structure

/-! Everything that is wrong with the delimiters of a source can be read off its forest. -/

namespace XQueryLexer

/-- Whether a fault is a closing bracket that closes nothing. -/
def Fault.isStray : Fault → Bool
  | unmatchedCloser _ | mismatchedCloser _ _ => true
  | _ => false

namespace Token

/-- The fault of a closing bracket that closes nothing, inside a container or outside of all. -/
def strayFault (token : Token) : Option Token → Fault
  | none => .unmatchedCloser token.value
  | some container =>
    let found := token.value.front
    .mismatchedCloser (container.state.closingChar?.getD found) found

/-- What a token inside a container says of itself, if it is an error. -/
def stray? (container : Option Token) (token : Token) : Option Diagnostic :=
  if token.error then some ⟨token.strayFault container, token.span.start⟩ else none

/-- What the last token says of the end of the source, if that ends the token. -/
def ending? (token : Token) : Option Diagnostic :=
  (token.state.unended? token.value.toList).map (⟨·, token.span.stop⟩)

/-- What an opening bracket says of itself, if it is never closed. -/
def unclosed (opener : Token) : Diagnostic :=
  ⟨.unclosedBracket opener.value, opener.span.start⟩

end Token

/-- Whether a tree is the closing bracket of an opening one. -/
def Tree.closes (opener : Token) : Tree Token → Bool
  | .leaf token => !token.error && opener.state.closedBy? = some token.state
  | .group _ _ => false

mutual

/-- What the errors of a tree inside a container say of themselves, in document order. -/
def Tree.strays (container : Option Token) : Tree Token → List Diagnostic
  | .leaf token => (token.stray? container).toList
  | .group opener inside =>
    (opener.stray? container).toList ++ Forest.strays (some opener) inside

/-- What the errors of trees inside a container say of themselves, in document order. -/
def Forest.strays (container : Option Token) : List (Tree Token) → List Diagnostic
  | [] => []
  | tree :: rest => tree.strays container ++ Forest.strays container rest

end

mutual

/-- What the brackets of a tree that no sibling closes say of themselves, inner ones first, where
the sibling behind the tree is given. -/
def Tree.unclosed (next : Option (Tree Token)) : Tree Token → List Diagnostic
  | .leaf _ => []
  | .group opener inside =>
    Forest.unclosed inside ++ if next.any (Tree.closes opener) then [] else [opener.unclosed]

/-- What the brackets of a forest that no sibling closes say of themselves, inner ones first. -/
def Forest.unclosed : List (Tree Token) → List Diagnostic
  | [] => []
  | tree :: rest => tree.unclosed rest.head? ++ Forest.unclosed rest

end

namespace Forest

/-- What the last token of a forest says of the end of the source. -/
def ending? (forest : Forest Token) : Option Diagnostic :=
  (items forest).getLast?.bind Token.ending?

/-- What a forest says of the faults of its source: first the closing brackets that close nothing,
then the end of the source, then the brackets that are never closed. -/
def diagnostics (forest : Forest Token) : List Diagnostic :=
  strays none forest ++ forest.ending?.toList ++ unclosed forest

/-- Trees side by side say of their errors what both sides say. -/
@[simp] theorem strays_append (container : Option Token) (first second : Forest Token) :
    strays container (first ++ second) = strays container first ++ strays container second := by
  -- Induction on the first forest, whose trees speak first.
  induction first with
  | nil => rfl
  | cons tree rest ih => simp [strays, ih]

/-- Behind trees whose brackets are all closed, only the later ones say that they are not. -/
theorem unclosed_append {first : Forest Token} (closed : unclosed first = [])
    (second : Forest Token) : unclosed (first ++ second) = unclosed second := by
  induction first with
  | nil => rfl
  | cons tree rest ih =>
    rw [unclosed, List.append_eq_nil_iff] at closed
    rw [List.cons_append, unclosed, ih closed.2]
    -- The sibling behind the tree is the same, unless the tree is the last one and no bracket.
    cases rest with
    | cons next rest => rw [List.cons_append, List.head?_cons, ← List.head?_cons, closed.1]; rfl
    | nil =>
      cases tree with
      | leaf token => rfl
      | group opener inside => simp [Tree.unclosed] at closed

end Forest

mutual

/-- The role of a token has no part in what a tree says of its errors. -/
theorem Tree.strays_reset (container : Option Token) (tree : Tree Token) :
    (tree.map Token.reset).strays (container.map Token.reset) = tree.strays container := by
  -- A token is an error by its mark and its value, and its container counts by its class.
  have same (token : Token) :
      token.reset.stray? (container.map Token.reset) = token.stray? container := by
    cases container <;> rfl
  cases tree with
  | leaf token => rw [Tree.map, Tree.strays, Tree.strays, same]
  | group opener inside =>
    rw [Tree.map, Tree.strays, Tree.strays, same, ← Forest.strays_reset (some opener) inside]
    rfl

/-- The roles of tokens have no part in what a forest says of its errors. -/
theorem Forest.strays_reset (container : Option Token) (forest : Forest Token) :
    Forest.strays (container.map Token.reset) (Forest.map Token.reset forest) =
      Forest.strays container forest := by
  cases forest with
  | nil => rfl
  -- The trees of a forest speak one after the other.
  | cons tree rest =>
    rw [Forest.map, Forest.strays, Forest.strays, Tree.strays_reset container tree,
      Forest.strays_reset container rest]

end

mutual

/-- The role of a token has no part in what a tree says of its open brackets. -/
theorem Tree.unclosed_reset (next : Option (Tree Token)) (tree : Tree Token) :
    (tree.map Token.reset).unclosed (next.map (Tree.map Token.reset)) = tree.unclosed next := by
  -- Whether a tree closes a bracket shows in its class and its mark.
  have same (opener : Token) (next : Tree Token) :
      (next.map Token.reset).closes opener.reset = next.closes opener := by
    cases next <;> rfl
  cases tree with
  | leaf token => rfl
  | group opener inside =>
    rw [Tree.map, Tree.unclosed, Tree.unclosed, Forest.unclosed_reset inside]
    cases next with
    | none => rfl
    | some next => simp only [Option.map_some, Option.any_some, same]; rfl

/-- The roles of tokens have no part in what a forest says of its open brackets. -/
theorem Forest.unclosed_reset (forest : Forest Token) :
    Forest.unclosed (Forest.map Token.reset forest) = Forest.unclosed forest := by
  cases forest with
  | nil => rfl
  -- Each tree is asked together with the one behind it.
  | cons tree rest =>
    have next : (Forest.map Token.reset rest).head? = rest.head?.map (Tree.map Token.reset) := by
      cases rest <;> rfl
    rw [Forest.map, Forest.unclosed, Forest.unclosed, next, Tree.unclosed_reset rest.head? tree,
      Forest.unclosed_reset rest]

end

/-- The role of the last token has no part in what it says of the end of the source. -/
theorem Forest.ending?_reset (forest : Forest Token) :
    ending? (map Token.reset forest) = forest.ending? := by
  -- The last token speaks by its class, its value and its span, none of which is a role.
  rw [ending?, ending?, items_map, List.getLast?_map]
  cases (items forest).getLast? <;> rfl

/-- The roles of tokens have no part in what a forest says of the faults of its source. -/
theorem Forest.diagnostics_reset (forest : Forest Token) :
    diagnostics (map Token.reset forest) = forest.diagnostics := by
  -- None of the three parts depends on a role.
  have strays := strays_reset none forest
  rw [Option.map_none] at strays
  rw [diagnostics, diagnostics, strays, ending?_reset, unclosed_reset]

/-- A lexeme that is not ended is no closing bracket. -/
theorem LexState.isStray_of_unended? {state : LexState} {text : List Char} {fault : Fault}
    (unended : state.unended? text = some fault) : fault.isStray = false := by
  -- Only strings, URI literals and comments can be without an end.
  unfold unended? at unended
  split at unended
  · split at unended <;> cases unended
    rfl
  · split at unended <;> cases unended
    rfl
  · split at unended <;> cases unended
    rfl
  · cases unended

/-- A closing bracket starts with its own character. -/
theorem LexState.Starts.eq_closer {c : Char} {ahead : Option Char} {bracket : Bracket}
    (starts : (LexState.closing bracket).Starts c ahead) : c = bracket.closer := by
  -- There is one way to start a closing bracket.
  cases starts with
  | closer _ closes => exact closes

namespace Nest

/-- What is said of errors behind the innermost scope is said last of the whole forest. -/
theorem strays_around (levels : List Level) {before after : Forest Token} {added : List Diagnostic}
    (grown : Forest.strays (container? levels) after =
      Forest.strays (container? levels) before ++ added) :
    Forest.strays none (around levels after) =
      Forest.strays none (around levels before) ++ added := by
  induction levels generalizing before after with
  | nil => exact grown
  | cons level outer ih =>
    -- An open bracket is the last tree of its scope, and what is inside it follows its head.
    apply ih
    have inner : Forest.strays (some level.opener) after =
        Forest.strays (some level.opener) before ++ added := grown
    simp only [Level.fold, Forest.strays_append, Forest.strays, Tree.strays, inner,
      List.append_nil, List.append_assoc]

/-- A placed token is the last one that can say that it is an error. -/
theorem strays_place (nest : Nest) (token : Token) :
    Forest.strays none (nest.place token).forest =
      Forest.strays none nest.forest ++ (token.stray? (container? nest.levels)).toList := by
  -- The token stands in the innermost scope, whose opening bracket is its container.
  refine strays_around nest.levels ?_
  simp [place, Forest.strays, Tree.strays]

/-- Around brackets that are all closed, exactly the open ones say that they are not closed. -/
theorem unclosed_around {levels : List Level} {inside : Forest Token}
    (before : ∀ level ∈ levels, Forest.unclosed level.before = []) :
    Forest.unclosed (around levels inside) = Forest.unclosed inside ++ levels.map Level.fault := by
  -- Induction on the open brackets: each is the last of its scope, so nothing closes it.
  induction levels generalizing inside with
  | nil => simp [around]
  | cons level outer ih =>
    rw [around_cons, ih fun other member => before other (List.mem_cons_of_mem _ member),
      Level.fold, Forest.unclosed_append (before level List.mem_cons_self)]
    simp [Forest.unclosed, Tree.unclosed, Token.unclosed, Level.fault]

/-- A nest whose faults so far are what its forest says of its errors, one for each of them, and in
which every bracket that is not open is closed. -/
structure Told (nest : Nest) : Prop where
  /-- Faults are collected. -/
  collecting : nest.collecting = true
  /-- Each open bracket was opened by its token. -/
  opens : ∀ level ∈ nest.levels, level.opener.state = .opening level.bracket
  /-- The brackets around the open ones are closed. -/
  before : ∀ level ∈ nest.levels, Forest.unclosed level.before = []
  /-- The brackets in the innermost scope are closed. -/
  inside : Forest.unclosed nest.inside = []
  /-- The errors of the forest say what has been collected. -/
  reports : nest.reports = Forest.strays none nest.forest
  /-- Each error says something. -/
  counted : nest.reports.length = (Forest.items nest.forest).countP Token.error
  /-- Nothing else has been collected. -/
  stray : ∀ diagnostic ∈ nest.reports, diagnostic.fault.isStray = true

namespace Told

variable {nest : Nest} {token : Token} {bracket : Bracket}

/-- There is nothing to say before the first token. -/
theorem initial : (Nest.initial true).Told :=
  ⟨rfl, by simp [Nest.initial], by simp [Nest.initial], rfl, rfl, rfl, by simp [Nest.initial]⟩

/-- A token that is no error has nothing to say where it is placed. -/
theorem place (told : nest.Told) (right : token.error = false) : (nest.place token).Told where
  collecting := told.collecting
  opens := told.opens
  before := told.before
  inside := Forest.unclosed_append told.inside _
  -- A token that is no error adds nothing to the strays.
  reports := by
    rw [strays_place, Token.stray?, right]
    exact told.reports.trans (List.append_nil _).symm
  counted := by
    rw [items_place, List.countP_append, List.countP_singleton, right]
    exact told.counted
  stray := told.stray

/-- A token that is placed as an error says the fault that is reported. -/
theorem placeStray (told : nest.Told) (wrong : token.error = true) {fault : Fault}
    (said : token.strayFault (container? nest.levels) = fault) :
    ((nest.report ⟨fault, token.span.start⟩).place token).Told := by
  -- The nest collects, so the fault is added to those that have been reported.
  have report_eq : nest.report ⟨fault, token.span.start⟩ =
      { nest with reports := nest.reports ++ [⟨fault, token.span.start⟩] } :=
    if_pos told.collecting
  have forest_eq := nest.forest_report ⟨fault, token.span.start⟩
  rw [report_eq] at forest_eq ⊢
  refine ⟨told.collecting, told.opens, told.before, Forest.unclosed_append told.inside _,
    ?_, ?_, ?_⟩
  · -- The fault that is added is what the token says in its place.
    rw [strays_place, forest_eq, Token.stray?, wrong, said, ← told.reports]
    rfl
  · rw [items_place, forest_eq, List.countP_append, List.countP_singleton, wrong, ← told.counted]
    simp [Nest.place]
  · intro diagnostic member
    rcases List.mem_append.mp member with earlier | added
    · exact told.stray diagnostic earlier
    · obtain rfl := List.mem_singleton.mp added
      rw [← said]
      cases container? nest.levels <;> rfl

/-- An opening bracket has nothing to say while it is open. -/
theorem openBracket (told : nest.Told) (opens : token.state = .opening bracket)
    (right : token.error = false) : (nest.openBracket bracket token).Told where
  collecting := told.collecting
  opens := List.forall_mem_cons.mpr ⟨opens, told.opens⟩
  before := List.forall_mem_cons.mpr ⟨told.inside, told.before⟩
  inside := rfl
  reports := by
    -- Whatever its place in the nesting, the bracket is one more head without a fault.
    have added := @strays_around nest.levels nest.inside (nest.inside ++ [.group token []]) []
      (by simp [Forest.strays, Tree.strays, Token.stray?, right])
    exact told.reports.trans (added.trans (List.append_nil _)).symm
  counted := by
    rw [items_openBracket, List.countP_append, List.countP_singleton, right]
    exact told.counted
  stray := told.stray

/-- A closing bracket says what is wrong with it, and otherwise it closes the bracket before it. -/
theorem closeBracket (told : nest.Told) (closes : token.state = .closing bracket)
    (front : token.value.front = bracket.closer) (right : token.error = false) :
    (nest.closeBracket bracket token).Told := by
  unfold Nest.closeBracket
  cases levels : nest.levels with
  | nil =>
    -- No bracket is open, so the token has no container and is one too many.
    refine @placeStray nest { token with error := true } told rfl _ ?_
    rw [levels]
    rfl
  | cons level outer =>
    have opens := told.opens
    have before := told.before
    rw [levels] at opens before
    obtain ⟨opened, opens⟩ := List.forall_mem_cons.mp opens
    obtain ⟨around, before⟩ := List.forall_mem_cons.mp before
    dsimp only
    by_cases same : level.bracket = bracket
    · -- The forest stays the same until the token is placed, which closes the bracket.
      rw [if_pos same]
      subst same
      have forest_eq := forest_leave levels
      refine ⟨told.collecting, opens, before, ?_, ?_, ?_, told.stray⟩
      · simp only [Nest.place, Level.fold, List.append_assoc]
        rw [Forest.unclosed_append around]
        simp [Forest.unclosed, Tree.unclosed, Tree.closes, told.inside, right, opened, closes,
          LexState.closedBy?]
      · rw [strays_place, forest_eq, Token.stray?, right]
        exact told.reports.trans (List.append_nil _).symm
      · rw [items_place, forest_eq, List.countP_append, List.countP_singleton, right]
        exact told.counted
    · -- The container is another bracket, and the token says that it does not match.
      rw [if_neg same]
      refine @placeStray nest { token with error := true } told rfl _ ?_
      rw [levels]
      simp only [container?, List.head?_cons, Option.map_some, Token.strayFault, front, opened]
      rfl

/-- A lexeme is taken in with all that its token has to say. -/
theorem absorb (told : nest.Told) {state : LexState} (start : Nat) {piece : List Char}
    (single : ∀ bracket : Bracket, state = .closing bracket → piece = [bracket.closer]) :
    (nest.absorb (.ofPiece start piece state)).Told := by
  cases state with
  | opening bracket => exact told.openBracket rfl rfl
  -- A closing bracket is one character, which its fault shows.
  | closing bracket =>
    refine told.closeBracket rfl ?_ rfl
    rw [single bracket rfl, String.front_eq, String.front?_eq]
    simp only [Token.ofState, String.toList_ofList]
    rfl
  | _ => exact told.place rfl

end Told

/-- The token of a lexeme is the last one, so that it is the one to say how the source ends. -/
theorem ending?_absorb (nest : Nest) (start : Nat) (piece : List Char) (state : LexState) :
    (nest.absorb (.ofPiece start piece state)).forest.ending? =
      (state.unended? piece).map (.ofOffset · (start + byteCount piece)) := by
  -- What a token says of its end has nothing to do with what is found out about it later.
  have fresh (forest : Forest Token) : forest.ending? =
      ((Forest.items forest).map Token.fresh).getLast?.bind Token.ending? := by
    rw [Forest.ending?, List.getLast?_map]
    cases (Forest.items forest).getLast? <;> rfl
  rw [fresh, tokens_absorb, Event.ofPiece, Event.token?, Option.toList_some, List.getLast?_concat,
    Option.bind_some, Token.ending?]
  simp only [Token.ofState, String.toList_ofList]
  rfl

/-- A text leaves a nest with what its tokens say, and then with what the last one says of the
end. -/
theorem Told.foldl_ofText (offset : Nat) (text : List Char) :
    ∀ {nest : Nest}, nest.Told → nest.forest.ending? = none → ∃ told : Nest, told.Told ∧
      (Event.ofText offset text).foldl Nest.absorb nest =
        { told with reports := told.reports ++ told.forest.ending?.toList } := by
  -- The induction follows the lexemes, of which only the last one can be without an end.
  fun_induction Event.ofText offset text with
  | case1 =>
    intro nest told ended
    exact ⟨nest, told, by simp [ended]⟩
  | case2 offset c rest state more extent =>
    rename_i piece ih
    intro nest told ended
    have starts : state.Starts c rest.head? := LexState.starts_starting c rest.head?
    refine ih (told.absorb offset fun bracket closes => ?_) ?_
    · -- A closing bracket takes in nothing behind its first character.
      rw [closes] at starts extent
      obtain rfl := Option.some.inj extent
      exact congrArg ([·]) starts.eq_closer
    · rw [ending?_absorb, starts.unended?_eq_none extent]
      rfl
  | case3 offset c rest state =>
    rename_i endless
    intro nest told ended
    have starts : state.Starts c rest.head? := LexState.starts_starting c rest.head?
    have absorbed : (nest.absorb (.ofPiece offset (c :: rest) state)).Told := by
      refine told.absorb offset fun bracket closes => ?_
      rw [closes] at endless
      simp [LexState.extent?] at endless
    refine ⟨_, absorbed, ?_⟩
    -- What is reported at the end is what the last token says.
    rw [List.foldl_cons, ending?_absorb, starts.unended?_eq_unterminated? endless, Event.ofEnd]
    cases state.unterminated? with
    | none => simp
    | some fault => exact if_pos absorbed.collecting

/-- What the forest of a nest that is told says of its faults is what is reported at the end. -/
theorem Told.diagnostics_eq {nest : Nest} (told : nest.Told) : nest.forest.diagnostics =
    nest.reports ++ nest.forest.ending?.toList ++ nest.levels.map Level.fault := by
  -- Nothing is left unclosed but the brackets that are still open.
  have unclosed : Forest.unclosed nest.forest = nest.levels.map Level.fault := by
    rw [forest, ← around, unclosed_around told.before, told.inside, List.nil_append]
  rw [Forest.diagnostics, told.reports, unclosed]

/-- A forest that is told has an error exactly if it says of a closing bracket that it closes
nothing. -/
theorem Told.hasError_iff {nest : Nest} (told : nest.Told) : nest.forest.hasError = true ↔
    ∃ diagnostic ∈ nest.forest.diagnostics, diagnostic.fault.isStray = true := by
  have counted : nest.forest.hasError = true ↔ nest.reports ≠ [] := by
    rw [Forest.hasError, List.any_eq_true, ← List.length_pos_iff, told.counted,
      List.countP_pos_iff]
  rw [counted, told.diagnostics_eq]
  constructor
  · -- The first report is one of them.
    intro some_error
    obtain ⟨diagnostic, member⟩ := List.exists_mem_of_ne_nil _ some_error
    exact ⟨diagnostic, by simp [member], told.stray diagnostic member⟩
  · rintro ⟨diagnostic, member, stray⟩
    rcases List.mem_append.mp member with found | opened
    · rcases List.mem_append.mp found with report | ended
      · exact List.ne_nil_of_mem report
      · -- What is said of the end is about a literal or a comment.
        obtain ⟨token, -, said⟩ := Option.bind_eq_some_iff.mp (Option.mem_toList.mp ended)
        obtain ⟨fault, unended, rfl⟩ := Option.map_eq_some_iff.mp said
        rw [LexState.isStray_of_unended? unended] at stray
        cases stray
    · -- And a bracket that is open is no closing one.
      obtain ⟨level, -, rfl⟩ := List.mem_map.mp opened
      cases stray

end Nest

/-- The diagnostics of a source are what its forest says of them, and some token of the forest is an
error exactly if one of them is a closing bracket that closes nothing. -/
theorem diagnostics_analyse (source : String) :
    (analyse source).diagnostics = (analyse source).forest.diagnostics ∧
      ((analyse source).forest.hasError = true ↔
        ∃ diagnostic ∈ (analyse source).diagnostics, diagnostic.fault.isStray = true) := by
  obtain ⟨nest, told, nest_eq⟩ := Nest.Told.foldl_ofText 0 source.toList .initial rfl
  -- The forest of the source has the shape of the one that is told.
  have shape : Forest.map Token.reset (analyse source).forest = nest.forest := by
    rw [map_reset_analyse, Nest.ofText]
    exact (congrArg Nest.forest nest_eq).trans rfl
  have error_eq : nest.forest.hasError = (analyse source).forest.hasError := by
    rw [← shape, Forest.hasError, Forest.items_map, List.any_map]
    rfl
  have said : nest.forest.diagnostics = (analyse source).forest.diagnostics := by
    rw [← shape, Forest.diagnostics_reset]
  have reported : (analyse source).diagnostics = nest.forest.diagnostics := by
    rw [analyse_diagnostics, Nest.ofText, Nest.reportUnclosed_eq, told.diagnostics_eq]
    rw [show ({} : Options).collectDiagnostics = true from rfl, nest_eq]
    exact congrArg Nest.reports (if_pos told.collecting)
  refine ⟨reported.trans said, ?_⟩
  rw [reported, ← error_eq]
  exact told.hasError_iff

end XQueryLexer
