import XQueryLexer.Proofs.Delimiter.Collecting
import XQueryLexer.Proofs.Naming.Setting
import XQueryLexer.Proofs.Nesting.Tracking

/-! The log of an analysis tells of the tokens of its forest in order, and of the roles that they
take later. -/

namespace XQueryLexer

namespace Token

variable {previous token : Token} {kind : Kind}

/-- Only an unresolved name is settled, with a role that it keeps, and never by another name. -/
theorem unresolved_of_settledBy? (given : previous.settledBy? token = some kind) :
    previous.isUnresolved = true ∧ kind.isUnresolvedName = false ∧ token.state ≠ .word .bare := by
  have call : (Kind.ofCall previous.value).isUnresolvedName = false := by
    unfold Kind.ofCall
    split <;> rfl
  unfold settledBy? at given
  split at given
  · cases given
  · rename_i unresolved
    have named : previous.isUnresolved = true := by
      simpa [isUnresolved] using unresolved
    -- The roles that are left are those of declarations, operators, axes and calls.
    grind [Kind.isUnresolvedName]

/-- The first word of a pair becomes an operator, and a name makes it one. -/
theorem operator_of_labelsAfter (given : (token.labelsAfter previous).previous = some kind) :
    kind = .operator ∧ token.state = .word .bare := by
  -- All other rules give a role to the later name only.
  unfold labelsAfter at given
  grind [Labels.none, Labels.currentOnly]

end Token

namespace Scope

variable {scope : Scope}

/-- In a scope that is split at its latest real tree, that one is the latest real of all heads. -/
theorem Exact.later_heads (split : scope.Exact) :
    (Forest.heads scope.trees).foldl Token.later none = scope.latestToken? := by
  -- Layout leaves the latest real token what it was.
  have dark (tokens : List Token) (held : ∀ token ∈ tokens, token.isReal = false)
      (previous : Option Token) : tokens.foldl Token.later previous = previous := by
    induction tokens with
    | nil => rfl
    | cons token rest ih =>
      obtain ⟨first, later⟩ := List.forall_mem_cons.mp held
      rw [List.foldl_cons, Token.later, if_neg (by simp [first])]
      exact ih later
  rw [trees_eq, Forest.heads_append, List.foldl_append, dark _ split.dark]
  cases latest : scope.latest with
  | none => simp [split.start latest, latestToken?, latest]
  | some tree =>
    -- The real tree at the cut takes the place of all before it.
    have real := split.real tree.item (by simp [latestToken?, latest])
    simp [latestToken?, latest, Token.later, real]

/-- The latest real token of a named scope is the first word of a pair only while it is
unresolved. -/
theorem Named.pairsUnresolved (named : scope.Named) :
    ∀ token ∈ scope.latestToken?, token.PairsUnresolved := by
  -- The pass over the scope starts with tokens that have no roles yet.
  have fresh : ∀ token ∈ scope.shape.heads, token.reset = token := by
    rw [shape, Forest.heads_map]
    exact Token.reset_of_mem_map
  have passed := Pass.pairsUnresolved_latest fresh
  rwa [named.own, pass, Pass.latestToken?_ofSplit] at passed

/-- The record of a new role for the latest real token of a scope, if there are both. -/
def relabelled (scope : Scope) (kind : Option Kind) : List Record :=
  (kind.bind fun new =>
    scope.latestToken?.map fun token => .relabelled token.value token.kind new).toList

/-- The record of a new role is one that tells of a token. -/
theorem filter_relabelled (scope : Scope) (kind : Option Kind) :
    (scope.relabelled kind).filter Record.isNarrative = scope.relabelled kind := by
  -- There is one such record or none.
  unfold relabelled
  cases kind <;> cases scope.latestToken? <;> rfl

/-- The log tells of a token and of the role that the latest real one before it has got. -/
theorem tells_relabelled (scope : Scope) {kind : Option Kind} {setting : Setting}
    (before : setting.previous = (scope.mapLatest (·.relabel kind)).latestToken?)
    (given : ∀ new ∈ kind, new.isUnresolvedName = false ∧
      ∀ previous ∈ scope.latestToken?, previous.isUnresolved = true) :
    Tells (setting.record :: scope.relabelled kind) [setting] := by
  rw [latestToken?_mapLatest] at before
  unfold relabelled
  cases kind with
  -- Without a new role the token alone is told of.
  | none => exact .found setting .nil
  | some new =>
    obtain ⟨resolved, unresolved⟩ := given new rfl
    cases latest : scope.latestToken? with
    | none => exact .found setting .nil
    | some previous =>
      -- The role that the log tells of replaces one that was not final.
      rw [latest] at before
      have named := Bool.and_eq_true_iff.mp (unresolved previous latest)
      exact .relabelled setting before named.2 resolved .nil

end Scope

namespace Assembly

variable {assembly : Assembly} {token : Token} {bracket : Bracket}

/-- A record is the last one of the log. -/
theorem log_note (assembly : Assembly) (record : Record) :
    (assembly.note record).log.toList = assembly.log.toList ++ [record] :=
  Array.toList_push

/-- A new role is logged if there is a token for it. -/
theorem log_relabel (assembly : Assembly) (kind : Option Kind) :
    (assembly.relabel kind).log.toList =
      assembly.log.toList ++ assembly.scope.relabelled kind := by
  -- Both sides look at the role and at the latest real token.
  unfold relabel Scope.relabelled
  cases kind <;> cases assembly.scope.latestToken? <;> simp [log_note]

/-- The record of a token and that of the role it settles are told behind what has been told. -/
theorem filter_log_relabel (assembly : Assembly) (record : Record) (kind : Option Kind)
    (narrative : record.isNarrative = true) :
    ((assembly.note record).relabel kind).log.toList.filter Record.isNarrative =
      assembly.log.toList.filter Record.isNarrative ++
        record :: assembly.scope.relabelled kind := by
  -- The token is looked at in the scope as it was before the record.
  have scope_eq : (assembly.note record).scope = assembly.scope := rfl
  simp [log_relabel, log_note, scope_eq, Scope.filter_relabelled, narrative]

/-- Announcing a token gives at most one new role to the latest real token before it, which was
unresolved until then and is resolved from then on. -/
theorem Named.exists_announce (named : assembly.Named) (token : Token) : ∃ kind : Option Kind,
    (assembly.announce token).1 = (assembly.note (.token token.value token.state token.kind
      assembly.frames.length)).relabel kind ∧
    ∀ new ∈ kind, new.isUnresolvedName = false ∧
      ∀ previous ∈ assembly.scope.latestToken?, previous.isUnresolved = true := by
  by_cases name : token.state = .word .bare
  · -- A name settles nothing, but it can be the second word of a pair.
    have nothing : assembly.scope.latestToken?.bind (·.settledBy? token) = none := by
      rw [Option.bind_eq_none_iff]
      intro previous _
      by_contra given
      obtain ⟨kind, settled⟩ := Option.ne_none_iff_exists'.mp given
      exact (Token.unresolved_of_settledBy? settled).2.2 name
    have noted : assembly.settle token = assembly.note
        (.token token.value token.state token.kind assembly.frames.length) :=
      congrArg (Assembly.relabel _) nothing
    refine ⟨((assembly.settle token).labels token).previous, by rw [Assembly.announce, noted], ?_⟩
    intro new given
    rw [noted] at given
    refine ⟨(Token.operator_of_labelsAfter given).1 ▸ rfl, ?_⟩
    intro previous latest
    have context : assembly.scope.latestToken?.getD .scopeStart = previous := by rw [latest]; rfl
    have given : (token.labelsAfter previous).previous = some new := context ▸ given
    obtain ⟨before, pair⟩ := Token.isWordPair_of_labelsAfter (given ▸ Option.some_ne_none new)
    exact named.scope.pairsUnresolved previous latest before token.value pair
  · -- No other token looks at its context, so that all it can do is settle a name.
    have labels : (assembly.settle token).labels token = .none := if_pos name
    refine ⟨assembly.scope.latestToken?.bind (·.settledBy? token), ?_, ?_⟩
    · rw [Assembly.announce, labels]
      rfl
    intro new given
    obtain ⟨previous, latest, settled⟩ := Option.bind_eq_some_iff.mp given
    obtain ⟨unresolved, resolved, -⟩ := Token.unresolved_of_settledBy? settled
    refine ⟨resolved, ?_⟩
    intro other same
    obtain rfl := Option.some.inj (latest.symm.trans same)
    exact unresolved

/-- An assembly whose log tells of the forest that it has come to. -/
structure Narrates (assembly : Assembly) : Prop extends assembly.Named where
  /-- The innermost scope is split at its latest real tree. -/
  split : assembly.scope.Exact
  /-- So is the scope around each open bracket. -/
  around : ∀ frame ∈ assembly.frames, frame.outer.Exact
  /-- The log tells of the tokens in order. -/
  tells : Tells (assembly.log.toList.filter Record.isNarrative)
    (Forest.settings 0 none assembly.forest)

namespace Narrates

/-- Any other record tells nothing of a token. -/
theorem note (narrates : assembly.Narrates) {record : Record} (other : record.isNarrative = false) :
    (assembly.note record).Narrates where
  scope := narrates.scope
  frames := narrates.frames
  split := narrates.split
  around := narrates.around
  tells := by
    -- The record is left out with all others that tell of nothing.
    have same : (assembly.note record).log.toList.filter Record.isNarrative =
        assembly.log.toList.filter Record.isNarrative := by
      simp [Assembly.note, other]
    rw [same]
    exact narrates.tells

/-- A report tells nothing of a token. -/
theorem report (narrates : assembly.Narrates) (diagnostic : Diagnostic) :
    (assembly.report diagnostic).Narrates := by
  -- What is collected besides does not matter for the log.
  have noted : (assembly.note (.diagnosed diagnostic)).Narrates := narrates.note rfl
  unfold Assembly.report
  dsimp only
  split
  · exact ⟨⟨noted.scope, noted.frames⟩, noted.split, noted.around, noted.tells⟩
  · exact noted

/-- What a token is announced with leaves the innermost scope split where it is. -/
theorem split_announce (narrates : assembly.Narrates) (token : Token) :
    (assembly.announce token).1.scope.Exact := by
  -- Two changes of the role leave the latest real token real.
  rw [scope_announce, scope_settle]
  refine Scope.Exact.mapLatest (narrates.split.mapLatest ?_) ?_
  · exact fun _ => rfl
  · exact fun _ => rfl

/-- What has been told so far stays true when the latest real token is settled, if it has been
unresolved until then. -/
theorem tells_settled (narrates : assembly.Narrates) {kind : Option Kind} {front : List Setting}
    (around_eq : ∀ inside, Forest.settings 0 none
      (Nest.around (assembly.frames.map Frame.placed) inside) =
        front ++ Forest.settings assembly.frames.length none inside)
    (unresolved : kind ≠ none → ∀ previous ∈ assembly.scope.latestToken?,
      previous.isUnresolved = true) :
    Tells (assembly.log.toList.filter Record.isNarrative) (front ++
      Forest.settings assembly.frames.length none
        (assembly.scope.mapLatest (·.relabel kind)).trees) := by
  have tells := narrates.tells
  rw [forest_eq_around, around_eq] at tells
  -- What is around the innermost scope is told of as before.
  have outside : List.Forall₂ Setting.Keeps front front :=
    List.forall₂_same.mpr fun setting _ => .refl setting
  exact tells.settle (List.rel_append outside (Forest.keeps_mapLatest _ assembly.scope unresolved))

/-- Once a token has been announced, the log tells of the forest with the token at its end. -/
theorem tells_announce (narrates : assembly.Narrates) (fresh : token.reset = token)
    {tree : Tree Token} (head : tree.item = (assembly.announce token).2)
    (single : ∀ depth previous, tree.settings depth previous = [⟨depth, previous, tree.item⟩]) :
    Tells ((assembly.announce token).1.log.toList.filter Record.isNarrative)
      (Forest.settings 0 none (Nest.around (assembly.frames.map Frame.placed)
        ((assembly.announce token).1.scope.trees ++ [tree]))) := by
  -- Both announcements of a role come to one, of which the log tells.
  obtain ⟨kind, announced, given⟩ := narrates.toNamed.exists_announce token
  have scope_eq : (assembly.announce token).1.scope =
      assembly.scope.mapLatest (·.relabel kind) := by
    rw [announced, scope_relabel]
    rfl
  obtain ⟨front, around_eq⟩ := Nest.exists_settings_around (assembly.frames.map Frame.placed)
  rw [List.length_map] at around_eq
  have unresolved : kind ≠ none → ∀ previous ∈ assembly.scope.latestToken?,
      previous.isUnresolved = true := by
    intro some_kind
    obtain ⟨new, rfl⟩ := Option.ne_none_iff_exists'.mp some_kind
    exact (given new rfl).2
  have settled := narrates.tells_settled around_eq unresolved
  rw [← scope_eq] at settled
  -- The token itself is told of behind that, and with it the role that it has settled.
  let setting : Setting :=
    ⟨assembly.frames.length, (assembly.announce token).1.scope.latestToken?, tree.item⟩
  have told : Tells (setting.record :: assembly.scope.relabelled kind) [setting] :=
    assembly.scope.tells_relabelled (congrArg Scope.latestToken? scope_eq) given
  have record_eq : setting.record =
      .token token.value token.state token.kind assembly.frames.length := by
    rw [← congrArg Token.kind fresh, Setting.record, show setting.token = tree.item from rfl, head]
    rfl
  -- The log grows by the token and by the role that it has settled.
  have log_eq : (assembly.announce token).1.log.toList.filter Record.isNarrative =
      assembly.log.toList.filter Record.isNarrative ++
        setting.record :: assembly.scope.relabelled kind := by
    rw [announced, filter_log_relabel _ _ _ rfl, record_eq]
  rw [log_eq, around_eq, Forest.settings_append, ← List.append_assoc,
    (narrates.split_announce token).later_heads]
  refine settled.append ?_
  rw [Forest.settings, single, Forest.settings, List.append_nil]
  exact told

/-- A placed token is told of. -/
theorem place (narrates : assembly.Narrates) (fresh : token.reset = token) :
    (assembly.place token).Narrates where
  toNamed := narrates.toNamed.place fresh
  split := (narrates.split_announce token).add _
  around := by
    rw [frames_place]
    exact narrates.around
  -- The token is the last one of the forest, and it was announced as such.
  tells := by
    rw [forest_eq_around, frames_place]
    simp only [Assembly.place, Scope.trees_add]
    exact narrates.tells_announce fresh rfl fun _ _ => rfl

/-- The token that opens a bracket is told of. -/
theorem openBracket (narrates : assembly.Narrates) (fresh : token.reset = token) :
    (assembly.openBracket bracket token).Narrates where
  toNamed := narrates.toNamed.openBracket fresh
  split := .empty
  around := by
    intro frame member
    simp only [Assembly.openBracket, frames_announce] at member
    rcases List.mem_cons.mp member with rfl | outer
    · exact narrates.split_announce token
    · exact narrates.around frame outer
  tells := by
    -- Nothing is inside the bracket yet, so that it is told of like any other token.
    rw [forest_eq_around]
    simp only [Assembly.openBracket, frames_announce]
    exact @tells_announce _ _ narrates fresh (.group _ []) rfl fun _ _ => rfl

/-- Leaving a bracket changes nothing of the forest, so that nothing has to be told. -/
theorem leave (narrates : assembly.Narrates) {frame : Frame} {outer : List Frame}
    (frames : assembly.frames = frame :: outer) :
    Narrates { assembly with frames := outer, scope := frame.fold assembly.scope } := by
  -- The bracket is filled and placed, as it is in the forest in any case.
  have around := narrates.around
  have named := narrates.frames
  rw [frames] at around named
  refine ⟨⟨?_, ?_⟩, ?_, ?_, ?_⟩
  · exact (named frame List.mem_cons_self).fill narrates.scope.labelled
  · exact fun other member => named other (List.mem_cons_of_mem _ member)
  · exact (around frame List.mem_cons_self).add _
  · exact fun other member => around other (List.mem_cons_of_mem _ member)
  · have tells := narrates.tells
    rw [forest, frames] at tells
    exact tells

/-- A closing bracket is told of, whether it closes one or not. -/
theorem closeBracket (narrates : assembly.Narrates) (fresh : token.reset = token) :
    (assembly.closeBracket bracket token).Narrates := by
  -- A closing bracket that is an error is told of like every other token.
  have stray : ({ token with error := true } : Token).reset = { token with error := true } :=
    congrArg (fun other => { other with error := true }) fresh
  unfold Assembly.closeBracket
  split
  · exact (narrates.report _).place stray
  · rename_i frames
    split
    · exact (narrates.leave frames).place fresh
    · exact (narrates.report _).place stray

/-- Whatever the scanner has to say, the log tells of the forest. -/
theorem absorb (narrates : assembly.Narrates) (event : Event) :
    (assembly.absorb event).Narrates := by
  cases event with
  | turn c ahead old new => exact narrates.note rfl
  | unterminated diagnostic => exact narrates.report diagnostic
  | lexeme found =>
    -- The token of a lexeme has the role that its class suggests.
    simp only [Assembly.absorb]
    cases found.state with
    | opening bracket => exact narrates.openBracket rfl
    | closing bracket => exact narrates.closeBracket rfl
    | _ => exact narrates.place rfl

/-- Some events leave the log telling of the forest. -/
theorem foldl_absorb (narrates : assembly.Narrates) (events : List Event) :
    (events.foldl Assembly.absorb assembly).Narrates := by
  -- Each event does.
  induction events generalizing assembly with
  | nil => exact narrates
  | cons event rest ih => exact ih (narrates.absorb event)

/-- Reports of open brackets tell nothing of a token. -/
theorem reportUnclosed (narrates : assembly.Narrates) : assembly.reportUnclosed.Narrates := by
  -- The induction is on the brackets, which the reports leave alone.
  unfold Assembly.reportUnclosed
  generalize assembly.frames = frames
  induction frames generalizing assembly with
  | nil => exact narrates
  | cons frame outer ih => exact ih (narrates.report _)

end Narrates

/-- The log of a source tells of its forest. -/
theorem narrates_ofSource (options : Options) (source : String) :
    (ofSource options source).Narrates := by
  -- Before the first event there is nothing to tell of, and the name of the source is no token.
  have start : (initial options.collectDiagnostics).Narrates :=
    ⟨⟨.empty, by simp [initial]⟩, .empty, by simp [initial], .nil⟩
  exact ((start.note rfl).foldl_absorb _).reportUnclosed

end Assembly

/-- Whatever the options are, the log of a source tells of the tokens of its forest in document
order, each with its place. Behind that of a token there may be one record of a role that the latest
real sibling before it gets then and keeps, and the warnings are the diagnostics of the source. -/
theorem tells_analyse (source : String) (options : Options) :
    let analysis := analyse source options
    analysis.log.filter Record.isToken = (Forest.rows 0 analysis.forest).map (fun row =>
      .token row.item.value row.item.state (.ofState row.item.state) row.depth) ∧
    Tells (analysis.log.filter Record.isNarrative) (Forest.settings 0 none analysis.forest) ∧
    (analysis.log.filter (·.level = .warn)).map Record.message =
      (analyse source).diagnostics.map Diagnostic.message := by
  intro analysis
  have tells : Tells (analysis.log.filter Record.isNarrative)
      (Forest.settings 0 none analysis.forest) :=
    (Assembly.narrates_ofSource options source).tells
  refine ⟨?_, tells, ?_⟩
  · -- The settings of the forest are its rows, if what is before a token is left out.
    have narrative (record : Record) : (record.isToken && record.isNarrative) = record.isToken := by
      cases record <;> rfl
    have found := tells.filter_isToken
    simp only [List.filter_filter, narrative] at found
    have rows := congrArg (List.map fun place : Nat × Token =>
      Record.token place.2.value place.2.state (.ofState place.2.state) place.1)
      (Forest.record_settings 0 none analysis.forest)
    rw [List.map_map, List.map_map] at rows
    exact found.trans rows
  · rw [Record.message_warn, diagnostics_analyse_options source {} options]
    rfl

/-- The bracket settles the name before it, across the space between them. -/
example : (analyse "if (a").log.filter Record.isNarrative =
    [.token "if" (.word .bare) .plainName 0, .token " " .whitespace .whitespace 0,
      .token "(" (.opening .round) .operator 0, .relabelled "if" .plainName .operator,
      .token "a" (.word .bare) .plainName 1] := by
  decide +kernel

end XQueryLexer
