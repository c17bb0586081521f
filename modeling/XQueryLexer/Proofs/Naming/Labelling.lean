import XQueryLexer.Proofs.Naming.Pass
import XQueryLexer.Proofs.Nesting.Nest

/-! The tokens of each scope have the roles that a single pass over that scope gives them. -/

namespace XQueryLexer

/-- A scope whose tokens have the roles that a pass over the scope gives to them, which looks at
nothing that is inside them or around the scope. -/
def Labelled (scope : Forest Token) : Prop :=
  scope.heads = Pass.through (scope.heads.map Token.reset)

/-- A forest whose scopes are labelled, each by itself. -/
def DeeplyLabelled (forest : Forest Token) : Prop :=
  ∀ scope ∈ Forest.scopes forest, Labelled scope

namespace Scope

/-- The pass that has come as far as a scope has. -/
def pass (scope : Scope) : Pass :=
  .ofSplit (Forest.heads scope.settled.toList) scope.latestToken?
    (Forest.heads scope.layout.toList)

/-- A scope cut at its latest real tree. -/
theorem trees_eq (scope : Scope) :
    scope.trees = scope.settled.toList ++ scope.latest.toList ++ scope.layout.toList := by
  -- Without a real tree there is nothing between what is settled and the layout.
  unfold trees contents
  cases scope.latest <;> simp

/-- The tokens of the pass are those at the heads of the scope. -/
theorem tokens_pass (scope : Scope) : scope.pass.tokens = scope.trees.heads := by
  -- Both are cut at the latest real one.
  rw [trees_eq]
  cases latest : scope.latest <;> simp [pass, Pass.ofSplit, latestToken?, latest]

/-- Placing a tree is passing its head. -/
theorem pass_add (scope : Scope) (tree : Tree Token) :
    (scope.add tree).pass = scope.pass.push tree.item := by
  cases real : tree.item.isReal with
  | true =>
    -- What was in the scope is settled from now on.
    have settled := scope.trees_eq
    rw [trees] at settled
    rw [pass, pass, Pass.push_ofSplit_real real]
    simp only [add, real, if_true, settled]
    cases latest : scope.latest <;> simp [latestToken?, latest]
  | false =>
    -- The tree joins the layout behind the latest real one.
    rw [pass, pass, Pass.push_ofSplit_layout real]
    simp [add, real, latestToken?]

/-- A scope with the head of its latest real tree changed. -/
def mapLatest (scope : Scope) (change : Token → Token) : Scope :=
  { scope with latest := scope.latest.map (Tree.mapHead change) }

/-- A change that the latest real tree does not notice changes nothing. -/
theorem mapLatest_eq_self {scope : Scope} {change : Token → Token}
    (same : ∀ tree ∈ scope.latest, tree.mapHead change = tree) :
    scope.mapLatest change = scope := by
  -- Only the latest real tree could be changed.
  obtain ⟨settled, latest, layout⟩ := scope
  cases latest with
  | none => rfl
  | some tree => simp [mapLatest, same tree rfl]

/-- Two changes of the latest real tree are one change. -/
theorem mapLatest_mapLatest (scope : Scope) (first second : Token → Token) :
    (scope.mapLatest first).mapLatest second =
      scope.mapLatest fun token => second (first token) := by
  -- Each change is one of the item at the head.
  have composed (tree : Tree Token) : (tree.mapHead first).mapHead second =
      tree.mapHead fun token => second (first token) := by
    cases tree <;> rfl
  simp only [mapLatest, Option.map_map]
  congr 2
  funext tree
  exact composed tree

/-- The latest real token is changed with its tree. -/
theorem latestToken?_mapLatest (scope : Scope) (change : Token → Token) :
    (scope.mapLatest change).latestToken? = scope.latestToken?.map change := by
  -- The token is the item at the head, where the change takes place.
  cases latest : scope.latest with
  | none => simp [mapLatest, latestToken?, latest]
  | some tree => cases tree <;> simp [mapLatest, latestToken?, latest, Tree.mapHead, Tree.item]

/-- The pass over a changed scope has the changed token at the place of the latest real one. -/
theorem pass_mapLatest (scope : Scope) (change : Token → Token) :
    (scope.mapLatest change).pass = .ofSplit (Forest.heads scope.settled.toList)
      (scope.latestToken?.map change) (Forest.heads scope.layout.toList) := by
  -- What is settled and what is layout stays where it is.
  rw [pass, latestToken?_mapLatest]
  rfl

/-- A change of a head is no change of what is inside it. -/
theorem insides_mapLatest (scope : Scope) (change : Token → Token) :
    (scope.mapLatest change).trees.insides = scope.trees.insides := by
  -- Only the latest real tree is another one, and inside it is the same.
  rw [trees_eq, trees_eq]
  cases latest : scope.latest with
  | none => simp [mapLatest, latest]
  | some tree => cases tree <;> simp [mapLatest, latest, Tree.mapHead]

/-- A change of a head that only gives another role is none of the shape. -/
theorem shape_mapLatest (scope : Scope) {change : Token → Token}
    (hidden : ∀ token, (change token).reset = token.reset) :
    (scope.mapLatest change).shape = scope.shape := by
  -- The role is what a shape leaves out.
  rw [shape, shape, trees_eq, trees_eq]
  cases latest : scope.latest with
  | none => simp [mapLatest, latest]
  | some tree => simp [mapLatest, latest, Forest.map, Tree.map_mapHead hidden]

/-- A scope that is cut at its latest real tree, if it has a real one. -/
structure Split (scope : Scope) : Prop where
  /-- The tree at the cut is real. -/
  real : ∀ token ∈ scope.latestToken?, token.isReal = true
  /-- No other one stands behind it. -/
  dark : ∀ token ∈ Forest.heads scope.layout.toList, token.isReal = false

/-- A scope with nothing in it has no real tree. -/
theorem Split.empty : Scope.empty.Split :=
  ⟨by simp [Scope.empty, latestToken?], by simp [Scope.empty]⟩

/-- A change of the latest real tree that leaves it real leaves the scope cut there. -/
theorem Split.mapLatest {scope : Scope} (split : scope.Split) {change : Token → Token}
    (same : ∀ token, (change token).isReal = token.isReal) : (scope.mapLatest change).Split := by
  -- The changed token is real because the one before the change is.
  refine ⟨?_, split.dark⟩
  intro token found
  rw [latestToken?_mapLatest] at found
  obtain ⟨other, latest, rfl⟩ := Option.map_eq_some_iff.mp found
  rw [same]
  exact split.real other latest

/-- A placed tree is the latest real one, or it stands behind that. -/
theorem Split.add {scope : Scope} (split : scope.Split) (tree : Tree Token) :
    (scope.add tree).Split := by
  cases real : tree.item.isReal with
  | true =>
    -- A real tree leaves no layout behind it yet.
    rw [Scope.add, if_pos real]
    exact ⟨by simpa [latestToken?] using real, by simp⟩
  | false =>
    -- A tree that is not real stands behind the layout there is.
    rw [Scope.add, if_neg (by simp [real])]
    refine ⟨split.real, ?_⟩
    intro token member
    rw [Array.toList_push, Forest.heads_append] at member
    rcases List.mem_append.mp member with earlier | added
    · exact split.dark token earlier
    · obtain rfl : token = tree.item := by simpa using added
      exact real

end Scope

namespace Assembly

/-- A new role changes the head of the latest real tree of the innermost scope. -/
theorem scope_relabel (assembly : Assembly) (kind : Option Kind) :
    (assembly.relabel kind).scope = assembly.scope.mapLatest (·.relabel kind) := by
  cases kind with
  | none =>
    -- Without a new role there is nothing to change.
    refine (Scope.mapLatest_eq_self fun tree _ => ?_).symm
    cases tree <;> rfl
  | some kind =>
    cases latest : assembly.scope.latest with
    | none =>
      -- Without a real tree there is nothing to be changed either.
      simp only [relabel, Scope.latestToken?, latest, Option.map_none]
      exact (Scope.mapLatest_eq_self (by simp [latest])).symm
    | some tree =>
      simp only [relabel, Scope.latestToken?, latest, Option.map_some]
      rfl

/-- A token that is announced settles the latest real token of the innermost scope. -/
theorem scope_settle (assembly : Assembly) (token : Token) : (assembly.settle token).scope =
    assembly.scope.mapLatest (·.relabel (assembly.scope.latestToken?.bind (·.settledBy? token))) :=
  scope_relabel _ _

/-- A token that is announced meets the latest real token of the innermost scope. -/
theorem announce_meet (assembly : Assembly) (token : Token) :
    (assembly.announce token).2 = (Token.meet assembly.scope.latestToken? token).2 ∧
      ∃ change : Token → Token, (∀ other, (change other).reset = other.reset) ∧
        (assembly.announce token).1.scope = assembly.scope.mapLatest change ∧
        assembly.scope.latestToken?.map change =
          (Token.meet assembly.scope.latestToken? token).1 := by
  -- The token that has been settled is the one whose role counts for the labels.
  have settled : (assembly.settle token).scope.latestToken? = assembly.scope.latestToken?.map
      fun previous => previous.relabel (previous.settledBy? token) := by
    rw [scope_settle, Scope.latestToken?_mapLatest]
    cases assembly.scope.latestToken? <;> rfl
  have labels : (assembly.settle token).labels token = token.labelsAfter
      ((assembly.scope.latestToken?.map fun previous =>
        previous.relabel (previous.settledBy? token)).getD .scopeStart) := by
    rw [Assembly.labels, settled]
  refine ⟨?_, fun other => (other.relabel (assembly.scope.latestToken?.bind
    (·.settledBy? token))).relabel ((assembly.settle token).labels token).previous,
    fun _ => rfl, ?_, ?_⟩
  · rw [announce, labels]
    rfl
  · simp only [announce]
    rw [scope_relabel, scope_settle, Scope.mapLatest_mapLatest]
  · rw [labels]
    cases assembly.scope.latestToken? <;> rfl

end Assembly

/-- A scope whose tokens and all tokens inside them have the roles that passes give them. -/
structure Scope.Named (scope : Scope) : Prop where
  /-- A pass over the tokens without their roles comes as far as the scope has. -/
  own : scope.shape.heads.foldl Pass.read .start = scope.pass
  /-- What is inside the tokens has been passed scope by scope. -/
  inner : ∀ inside ∈ scope.trees.insides, Labelled inside

namespace Scope.Named

variable {scope : Scope} {token : Token} {tree : Tree Token} {inside : Forest Token}

/-- A scope with nothing in it is named. -/
theorem empty : Scope.empty.Named :=
  ⟨rfl, by simp [Scope.empty, trees, contents]⟩

/-- Every scope in a named one is labelled, and so is the named one itself. -/
theorem labelled (named : scope.Named) : DeeplyLabelled scope.trees := by
  -- Of the scope itself the pass has come to its end.
  intro other member
  rcases List.mem_cons.mp member with rfl | deeper
  · have own := congrArg Pass.tokens named.own
    rw [tokens_pass, shape, Forest.heads_map] at own
    exact own.symm
  · exact named.inner other deeper

/-- A tree whose head has met the latest real token can be placed behind that. -/
theorem add (named : scope.Named) {change : Token → Token}
    (hidden : ∀ other, (change other).reset = other.reset) (fresh : token.reset = token)
    (kept : scope.latestToken?.map change = (Token.meet scope.latestToken? token).1)
    (head : tree.item = (Token.meet scope.latestToken? token).2)
    (inner : ∀ inside ∈ Forest.insides [tree], Labelled inside) :
    ((scope.mapLatest change).add tree).Named := by
  constructor
  · -- The pass reads the token that the head was before it got its role.
    have item : (tree.map Token.reset).item = token := by
      rw [Tree.item_map, head]
      exact fresh
    rw [shape_add, shape_mapLatest scope hidden, Forest.heads_append, List.foldl_append, named.own,
      pass_add, pass_mapLatest, kept, head]
    simp only [Forest.heads_cons, Forest.heads_nil, item, List.foldl_cons, List.foldl_nil]
    exact Pass.read_ofSplit token
  · -- What is inside the tokens is what was inside them before, and what is inside the tree.
    intro inside member
    rw [trees_add, Forest.insides_append, insides_mapLatest] at member
    rcases List.mem_append.mp member with earlier | placed
    · exact named.inner inside earlier
    · exact inner inside placed

/-- What is inside the last token has no part in the roles of the scope around it. -/
theorem fill (named : (scope.add (.leaf token)).Named)
    (inner : DeeplyLabelled inside) : (scope.add (.group token inside)).Named := by
  -- A pass sees the same head, whether there is a place for trees below it or not.
  obtain ⟨own, outer⟩ := named
  constructor
  · rw [shape_add, Forest.heads_append] at own ⊢
    rw [pass_add] at own ⊢
    exact own
  · -- Inside there are now the scopes of the trees that are filled in.
    intro other member
    rw [trees_add, Forest.insides_append] at member outer
    simp only [Forest.insides_leaf, Forest.insides_group, Forest.insides_nil, List.append_nil,
      List.mem_append] at member outer
    exact member.elim (outer other) (inner other)

end Scope.Named

namespace Assembly

/-- An assembly in which every scope so far is named, also those around open brackets. -/
structure Named (assembly : Assembly) : Prop where
  /-- The innermost scope is named. -/
  scope : assembly.scope.Named
  /-- So is the scope around each open bracket, up to the token that opened it. -/
  frames : ∀ frame ∈ assembly.frames, (frame.outer.add (.leaf frame.opener)).Named

/-- A new role is given inside the innermost scope. -/
@[simp] theorem frames_relabel (assembly : Assembly) (kind : Option Kind) :
    (assembly.relabel kind).frames = assembly.frames := by
  -- Whatever is relabelled, the open brackets are not touched.
  unfold relabel
  split <;> rfl

/-- A token is announced inside the innermost scope. -/
@[simp] theorem frames_announce (assembly : Assembly) (token : Token) :
    (assembly.announce token).1.frames = assembly.frames := by
  -- Two roles may be given on the way, and neither touches the open brackets.
  simp only [announce, settle, frames_relabel]
  rfl

variable {assembly : Assembly} {token : Token} {bracket : Bracket}

/-- Nothing but a report is added by a report. -/
theorem Named.report (named : assembly.Named) (diagnostic : Diagnostic) :
    (assembly.report diagnostic).Named := by
  -- Scope and open brackets are the same, whether the fault is collected or not.
  unfold Assembly.report
  dsimp only
  split <;> exact ⟨named.scope, named.frames⟩

/-- A tree can be placed once its head has been announced. -/
theorem Named.announce (named : assembly.Named) (fresh : token.reset = token) {tree : Tree Token}
    (head : tree.item = (assembly.announce token).2)
    (inner : ∀ inside ∈ Forest.insides [tree], Labelled inside) :
    ((assembly.announce token).1.scope.add tree).Named := by
  -- The announcement is a meeting with the latest real token of the innermost scope.
  obtain ⟨met, change, hidden, scope, kept⟩ := assembly.announce_meet token
  rw [scope]
  exact named.scope.add hidden fresh kept (head.trans met) inner

/-- A placed token leaves the assembly named. -/
theorem Named.place (named : assembly.Named) (fresh : token.reset = token) :
    (assembly.place token).Named := by
  -- There is nothing inside the token, and the open brackets stay as they are.
  refine ⟨named.announce fresh rfl (by simp), ?_⟩
  simpa [Assembly.place] using named.frames

/-- An opened bracket leaves the assembly named. -/
theorem Named.openBracket (named : assembly.Named) (fresh : token.reset = token) :
    (assembly.openBracket bracket token).Named := by
  -- The new scope is empty, and the one around it gets the opening token.
  refine ⟨.empty, ?_⟩
  intro frame member
  simp only [Assembly.openBracket, frames_announce] at member
  rcases List.mem_cons.mp member with rfl | outer
  · -- Nothing is inside the bracket yet, so that it stands in the scope like any other token.
    exact named.announce fresh rfl (by simp)
  · exact named.frames frame outer

/-- A closing bracket leaves the assembly named, whether it closes one or not. -/
theorem Named.closeBracket (named : assembly.Named) (fresh : token.reset = token) :
    (assembly.closeBracket bracket token).Named := by
  -- A closing bracket that is an error is announced like every other token.
  have stray : ({ token with error := true } : Token).reset = { token with error := true } :=
    congrArg (fun other => { other with error := true }) fresh
  unfold Assembly.closeBracket
  split
  · exact (named.report _).place stray
  · rename_i frame outer frames
    split
    · -- The bracket is filled with the innermost scope, and the token follows behind it.
      have around : ∀ other ∈ frame :: outer, (other.outer.add (.leaf other.opener)).Named := by
        rw [← frames]
        exact named.frames
      have filled : (frame.fold assembly.scope).Named :=
        (around frame List.mem_cons_self).fill named.scope.labelled
      refine Named.place ⟨filled, ?_⟩ fresh
      intro other member
      exact around other (List.mem_cons_of_mem _ member)
    · exact (named.report _).place stray

/-- What has been assembled stays named whatever the scanner has to say. -/
theorem Named.absorb (named : assembly.Named) (event : Event) : (assembly.absorb event).Named := by
  cases event with
  | turn c ahead old new => exact ⟨named.scope, named.frames⟩
  | unterminated diagnostic => exact named.report diagnostic
  | lexeme found =>
    -- The token of a lexeme has the role that its class suggests.
    simp only [Assembly.absorb]
    cases found.state with
    | opening bracket => exact named.openBracket rfl
    | closing bracket => exact named.closeBracket rfl
    | _ => exact named.place rfl

/-- Some events leave the assembly named. -/
theorem Named.foldl_absorb (named : assembly.Named) (events : List Event) :
    (events.foldl Assembly.absorb assembly).Named := by
  -- Each event does.
  induction events generalizing assembly with
  | nil => exact named
  | cons event rest ih => exact ih (named.absorb event)

/-- Reporting open brackets changes no token. -/
theorem Named.reportUnclosed (named : assembly.Named) : assembly.reportUnclosed.Named := by
  -- The induction is on the brackets, which the reports leave alone.
  unfold Assembly.reportUnclosed
  generalize assembly.frames = frames
  induction frames generalizing assembly with
  | nil => exact named
  | cons frame outer ih => exact ih (named.report _)

/-- Every scope of the forest of a named assembly is labelled. -/
theorem Named.forest (named : assembly.Named) : DeeplyLabelled assembly.forest := by
  -- The open brackets are filled one by one, from the innermost to the outermost.
  obtain ⟨scope, frames⟩ := named
  unfold Assembly.forest
  generalize assembly.scope = inside at scope
  generalize assembly.frames = around at frames
  induction around generalizing inside with
  | nil => exact scope.labelled
  | cons frame outer ih =>
    have filled : (frame.fold inside).Named :=
      (frames frame List.mem_cons_self).fill scope.labelled
    exact ih _ filled fun other member => frames other (List.mem_cons_of_mem _ member)

/-- What is assembled of a source is named. -/
theorem named_ofSource (options : Options) (source : String) : (ofSource options source).Named := by
  -- At the start there is one scope, with nothing in it.
  have start : ((initial options.collectDiagnostics).note (.analysing source)).Named :=
    ⟨.empty, by simp [initial, note]⟩
  exact (start.foldl_absorb _).reportUnclosed

end Assembly

/-- Every scope of the forest of a source is labelled by itself. -/
theorem labelled_analyse (source : String) (options : Options) :
    DeeplyLabelled (analyse source options).forest :=
  -- The assembly of the whole source is named, and the forest is what it has assembled.
  (Assembly.named_ofSource options source).forest

end XQueryLexer
