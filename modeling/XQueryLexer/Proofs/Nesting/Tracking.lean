import XQueryLexer.Proofs.Lexeme.Pending
import XQueryLexer.Proofs.Nesting.Draft

/-! The places of a draft, which lead nowhere but to the trees that they stand for, however far a
source has been read. -/

namespace XQueryLexer

namespace Draft

/-- Each open bracket is a group at the end of the scope around it, with its place among its
siblings and its token as they are remembered. -/
def Stands (scope : Forest Token) : List Opening → Prop
  | [] => True
  | opening :: deeper => ∃ before token inside, scope = before ++ [.group token inside] ∧
      before.length = opening.index ∧ token.state = opening.state ∧
      token.value = .singleton opening.char ∧ token.span.start = opening.position ∧
      Stands inside deeper

/-- A path behind an address leads to the latest real tree of a scope, and there is no path if
there is no such tree. -/
def PointsAt (address : List Nat) (scope : Forest Token) : Option (List Nat) → Prop
  | none => ∀ token ∈ scope.heads, token.isReal = false
  | some path => ∃ before tree after, scope = before ++ tree :: after ∧
      path = address ++ [before.length] ∧ tree.item.isReal = true ∧
      ∀ token ∈ Forest.heads after, token.isReal = false

/-- A draft whose places lead to what they stand for. -/
structure Sound (draft : Draft) : Prop where
  /-- The open brackets stand where they are remembered. -/
  stands : Stands draft.forest draft.openings
  /-- The path leads to the latest real token of the innermost open scope. -/
  points : ∃ scope, draft.forest.scopeAt? draft.address = some scope ∧
    PointsAt draft.address scope draft.latest

/-- The open brackets of a nest stand where they are remembered. -/
theorem stands_around {levels : List Nest.Level} {inside : Forest Token} {deeper : List Opening}
    (single : ∀ level ∈ levels, ∃ c, level.opener.value = .singleton c)
    (stands : Stands inside deeper) : Stands (Nest.around levels inside)
      ((levels.map Nest.Level.opening).reverse ++ deeper) := by
  -- The innermost bracket is the last one remembered, and it fills the end of its scope.
  induction levels generalizing inside deeper with
  | nil => exact stands
  | cons level outer ih =>
    obtain ⟨c, value⟩ := single level List.mem_cons_self
    have front : level.opening.char = c := by
      simp [Nest.Level.opening, value, String.front_eq, String.front?_eq]
    rw [List.map_cons, List.reverse_cons, List.append_assoc]
    refine ih (fun other member => single other (List.mem_cons_of_mem _ member)) ?_
    exact ⟨level.before, level.opener, inside, rfl, rfl, rfl, front.symm ▸ value, rfl, stands⟩

end Draft

/-- A scope that is split at its latest real tree, and not at all if it has none. -/
structure Scope.Exact (scope : Scope) : Prop extends scope.Split where
  /-- Without a tree to split it at, nothing is before that. -/
  start : scope.latest = none → scope.settled = #[]

namespace Scope

variable {scope : Scope}

/-- A scope without trees is split at none. -/
theorem Exact.empty : Scope.empty.Exact :=
  ⟨.empty, fun _ => rfl⟩

/-- A change of the latest real tree that leaves it real leaves the scope split there. -/
theorem Exact.mapLatest (split : scope.Exact) {change : Token → Token}
    (same : ∀ token, (change token).isReal = token.isReal) : (scope.mapLatest change).Exact where
  toSplit := split.toSplit.mapLatest same
  -- Nothing is latest after the change only if nothing was before it.
  start none_left := split.start (Option.map_eq_none_iff.mp none_left)

/-- Behind a real tree a scope is split there. -/
theorem exact_add_real (scope : Scope) {tree : Tree Token} (real : tree.item.isReal = true) :
    (scope.add tree).Exact := by
  -- The placed tree is the latest real one, with nothing behind it.
  rw [add, if_pos real]
  exact ⟨⟨by simpa [latestToken?] using real, by simp⟩, by simp⟩

/-- A placed tree is the latest real one, or it stands behind that. -/
theorem Exact.add (split : scope.Exact) (tree : Tree Token) : (scope.add tree).Exact := by
  cases real : tree.item.isReal with
  | true => exact scope.exact_add_real real
  -- Layout waits behind the tree at which the scope is split already.
  | false =>
    refine ⟨split.toSplit.add tree, ?_⟩
    rw [Scope.add, if_neg (by simp [real])]
    exact split.start

/-- A path to the tree at which a scope is split leads to its latest real one. -/
theorem Exact.pointsAt (split : scope.Exact) (address : List Nat) : Draft.PointsAt address
    scope.trees (scope.latest.map fun _ => address ++ [scope.settled.size]) := by
  rw [trees_eq]
  cases latest : scope.latest with
  | none =>
    -- Without a real tree there is no path, and every tree is layout.
    intro token member
    rw [split.start latest] at member
    exact split.dark token (by simpa using member)
  | some tree =>
    -- The path ends with the number of the trees that are settled, behind which the real one
    -- stands.
    exact ⟨scope.settled.toList, tree, scope.layout.toList, by simp, by simp,
      split.real tree.item (by simp [latestToken?, latest]), split.dark⟩

end Scope

/-- An open bracket of an assembly, with the trees before it as they are. -/
def Frame.placed (frame : Frame) : Nest.Level :=
  ⟨frame.bracket, frame.opener, frame.outer.trees⟩

/-- An open bracket with a token that opens it, which is a single character. -/
structure Frame.Opened (frame : Frame) : Prop where
  /-- The class of the token says which bracket it is. -/
  state_eq : frame.opener.state = .opening frame.bracket
  /-- Its text is the bracket alone. -/
  single : ∃ c, frame.opener.value = .singleton c

/-- The forest of an assembly is the one around its innermost scope. -/
theorem Assembly.forest_eq_around (assembly : Assembly) : assembly.forest =
    Nest.around (assembly.frames.map Frame.placed) assembly.scope.trees := by
  obtain ⟨-, frames, scope, -, -⟩ := assembly
  simp only [forest]
  -- Induction on the open brackets, each of which closes around the scope inside it.
  induction frames generalizing scope with
  | nil => rfl
  | cons frame outer ih =>
    rw [List.foldl_cons, ih, Frame.fold, Scope.trees_add]
    rfl

/-- A token that is placed opens and closes nothing. -/
theorem Assembly.frames_place (assembly : Assembly) (token : Token) :
    (assembly.place token).frames = assembly.frames :=
  assembly.frames_announce token

/-- A closing bracket is placed as it is. -/
theorem Assembly.scope_place_closing {token : Token} {bracket : Bracket}
    (closes : token.state = .closing bracket) (assembly : Assembly) :
    (assembly.place token).scope = assembly.scope.add (.leaf token) := by
  -- Announcing a closing bracket leaves both the scope and the token alone.
  obtain ⟨scope_eq, token_eq⟩ := Assembly.announce_closing closes assembly
  simp only [place, scope_eq, token_eq]

namespace Draft

/-- A draft that has come as far as an assembly. -/
structure Tracks (draft : Draft) (assembly : Assembly) : Prop where
  /-- The draft shows the innermost scope and the open brackets around it. -/
  shows : draft.Shows (assembly.frames.map Frame.placed) assembly.scope []
  /-- The innermost scope is split at its latest real tree. -/
  split : assembly.scope.Exact
  /-- The open brackets are those that their tokens open. -/
  opened : ∀ frame ∈ assembly.frames, frame.Opened

namespace Tracks

variable {draft : Draft} {assembly : Assembly} {token : Token} {bracket : Bracket}

/-- Before the first token there is nothing to place. -/
theorem initial (collecting : Bool) : empty.Tracks (.initial collecting) where
  shows := ⟨rfl, rfl, rfl⟩
  split := .empty
  opened := by simp [Assembly.initial]

/-- A draft that has come as far as an assembly has the same forest. -/
theorem forest_eq (tracks : draft.Tracks assembly) : draft.forest = assembly.forest := by
  -- The draft shows the scope with its brackets around it, and nothing pushed behind that.
  rw [assembly.forest_eq_around, tracks.shows.forest_eq, List.append_nil]

/-- The places of a draft that has come as far as an assembly lead to what they stand for. -/
theorem sound (tracks : draft.Tracks assembly) : draft.Sound := by
  have forest_eq := tracks.shows.forest_eq
  rw [List.append_nil] at forest_eq
  -- Both fields speak of the nest that the draft shows, whose levels are the open brackets.
  constructor
  · rw [forest_eq, tracks.shows.openings_eq, ← List.append_nil (List.reverse _)]
    refine stands_around ?_ trivial
    intro level member
    obtain ⟨frame, among, rfl⟩ := List.mem_map.mp member
    exact (tracks.opened frame among).single
  · rw [forest_eq, address_eq tracks.shows.openings_eq, tracks.shows.latest_eq]
    exact ⟨_, Nest.scopeAt?_around _ _, tracks.split.pointsAt _⟩

/-- A record of the log places nothing. -/
theorem note (tracks : draft.Tracks assembly) (record : Record) :
    draft.Tracks (assembly.note record) :=
  ⟨tracks.shows, tracks.split, tracks.opened⟩

/-- A report places nothing. -/
theorem report (tracks : draft.Tracks assembly) (diagnostic : Diagnostic) :
    draft.Tracks (assembly.report diagnostic) := by
  -- The diagnostics are no part of what is drawn, whether they are collected or not.
  unfold Assembly.report
  dsimp only
  split <;> exact ⟨tracks.shows, tracks.split, tracks.opened⟩

/-- Reporting the open brackets places nothing. -/
theorem reportUnclosed (tracks : draft.Tracks assembly) : draft.Tracks assembly.reportUnclosed := by
  unfold Assembly.reportUnclosed
  generalize assembly.frames = frames
  -- One report for each open bracket, so by induction on these.
  induction frames generalizing assembly with
  | nil => exact tracks
  | cons frame outer ih => exact ih (tracks.report _)

/-- What a token is announced with leaves the innermost scope split where it is. -/
theorem exact_announce (tracks : draft.Tracks assembly) (token : Token) :
    (assembly.announce token).1.scope.Exact := by
  -- The latest real token may be relabelled twice, and a role does not make it layout.
  rw [Assembly.scope_announce, Assembly.scope_settle]
  refine Scope.Exact.mapLatest (tracks.split.mapLatest ?_) ?_
  · exact fun _ => rfl
  · exact fun _ => rfl

/-- A token that nothing is nested inside of is placed in the draft too. -/
theorem place (tracks : draft.Tracks assembly) (token : Token) : ∃ other,
    (draft.emit? (.leaf token)).map Prod.fst = some other ∧
      other.Tracks (assembly.place token) := by
  -- Placing extends the innermost scope and leaves the open brackets as they are.
  obtain ⟨other, placed, shown⟩ := tracks.shows.emit? (.leaf token)
  refine ⟨other, by rw [placed]; rfl, ?_, (tracks.exact_announce token).add _, ?_⟩
  · rw [Assembly.frames_place]
    exact shown
  · rw [Assembly.frames_place]
    exact tracks.opened

/-- A token that opens a bracket is placed in the draft, and its place is remembered. -/
theorem openBracket (tracks : draft.Tracks assembly) (opens : token.state = .opening bracket)
    (single : ∃ c, token.value = .singleton c) : ∃ other,
    draft.openBracket? token = some other ∧
      other.Tracks (assembly.openBracket bracket token) := by
  obtain ⟨placed, emitted, shown⟩ := tracks.shows.emit? (.group token [])
  have frames_eq := assembly.frames_announce token
  -- Nothing is pushed into the scope by what the token is announced with.
  have length_eq : (assembly.announce token).1.scope.trees.length =
      assembly.scope.trees.length := by
    rw [Assembly.scope_announce, length_mapLatest, Assembly.scope_settle, length_mapLatest]
  have forest_eq : placed.forest = Nest.around (assembly.frames.map Frame.placed)
      ((assembly.announce token).1.scope.trees ++ [.group (assembly.announce token).2 []]) := by
    have pushed := shown.forest_eq
    rw [Scope.trees_add, List.append_nil] at pushed
    exact pushed
  refine ⟨_, by rw [openBracket?, emitted]; rfl, ⟨?_, ?_, ?_⟩, .empty, ?_⟩
  · -- The group that has been placed is the innermost level now, with nothing inside it.
    simp only [Assembly.openBracket, frames_eq]
    exact forest_eq
  · -- Its place is the number of the trees that were in the scope before.
    simp only [Assembly.openBracket, frames_eq, List.map_cons, List.reverse_cons]
    rw [shown.openings_eq, ← length_eq]
    rfl
  · rfl
  · intro frame member
    simp only [Assembly.openBracket, frames_eq] at member
    rcases List.mem_cons.mp member with rfl | outer
    · exact ⟨opens, single⟩
    · exact tracks.opened frame outer

/-- The innermost open bracket of a draft is closed by the token of its own closing bracket. -/
theorem any_closes {frame : Frame} {outer : List Frame} (tracks : draft.Tracks assembly)
    (frames : assembly.frames = frame :: outer) (closes : token.state = .closing bracket) :
    (draft.openings.getLast?.any fun opening => opening.state.closedBy? = some token.state) =
      decide (frame.bracket = bracket) := by
  have opened := tracks.opened frame (frames ▸ List.mem_cons_self)
  -- The last opening of the draft is the innermost frame of the assembly.
  have last : draft.openings.getLast? = some frame.placed.opening := by
    rw [tracks.shows.openings_eq, frames, List.map_cons, List.map_cons, List.reverse_cons,
      List.getLast?_concat]
  have state : frame.placed.opening.state = .opening frame.bracket := opened.state_eq
  simp [last, state, closes, LexState.closedBy?]

/-- A token that closes no open bracket is placed in the draft like any other one. -/
theorem stray (tracks : draft.Tracks assembly) (diagnostic : Diagnostic)
    (apart : (draft.openings.getLast?.any fun opening =>
      opening.state.closedBy? = some token.state) = false) : ∃ other,
    draft.closeBracket? token = some other ∧
      other.Tracks ((assembly.report diagnostic).place { token with error := true }) := by
  -- The token is an error on both sides, and the report is one of the assembly only.
  simp only [closeBracket?, apart, Bool.false_eq_true, if_false]
  exact (tracks.report diagnostic).place _

/-- While a bracket is being closed, the path that led into it still leads to a token. -/
theorem leave {frame : Frame} {outer : List Frame} (tracks : draft.Tracks assembly)
    (frames : assembly.frames = frame :: outer) (tree : Tree Token) : ∀ path ∈ draft.latest,
    ∃ previous, (Nest.around (outer.map Frame.placed)
      (frame.placed.fold assembly.scope.trees ++ [tree])).itemAt? path = some previous := by
  intro path latest
  rw [tracks.shows.latest_eq, frames] at latest
  obtain ⟨kept, found, rfl⟩ := Option.map_eq_some_iff.mp latest
  -- The path goes on behind the bracket, where nothing has changed.
  rw [List.map_cons, Nest.address_cons, List.append_assoc, Forest.itemAt?_append _ _ (by simp),
    Nest.scopeAt?_around, Option.bind_some, Forest.itemAt?_append _ _ (by simp)]
  have inside : Forest.scopeAt? (frame.placed.fold assembly.scope.trees ++ [tree])
      [frame.placed.before.length] = some assembly.scope.trees := by
    simp [Nest.Level.fold, Forest.scopeAt?]
  have trees_eq := @trees_of_latest _ [] _ found
  rw [List.append_nil, List.append_nil] at trees_eq
  rw [inside, Option.bind_some, trees_eq]
  exact ⟨_, Forest.itemAt?_singleton _ _ kept⟩

/-- A token that closes the innermost open bracket is placed in the draft behind it. -/
theorem close {frame : Frame} {outer : List Frame} (tracks : draft.Tracks assembly)
    (frames : assembly.frames = frame :: outer) (closes : token.state = .closing bracket)
    (same : frame.bracket = bracket) : ∃ other, draft.closeBracket? token = some other ∧
      other.Tracks (({ assembly with
        frames := outer, scope := frame.fold assembly.scope } : Assembly).place token) := by
  -- Without the closed bracket the draft is one of the scope around it.
  have forest_eq : draft.forest = Nest.around (outer.map Frame.placed)
      (frame.placed.fold assembly.scope.trees) := by
    rw [tracks.shows.forest_eq, frames, List.append_nil]
    rfl
  have openings_eq : draft.openings.dropLast =
      ((outer.map Frame.placed).map Nest.Level.opening).reverse := by
    rw [tracks.shows.openings_eq, frames, List.map_cons, List.map_cons, List.reverse_cons,
      List.dropLast_concat]
  have folded : (frame.fold assembly.scope).trees = frame.placed.fold assembly.scope.trees :=
    frame.outer.trees_add _
  -- The path to the latest real token leads to a token there, although it may be inside the
  -- bracket.
  have context := tracks.leave frames (.leaf token)
  rw [← folded] at forest_eq context
  obtain ⟨other, emitted, shown⟩ := @emit?_closing token bracket
    { draft with openings := draft.openings.dropLast } _ _ forest_eq openings_eq closes context
  -- In the assembly the token stands behind the bracket as well, where it is the latest real one.
  have scope_eq := Assembly.scope_place_closing closes
    { assembly with frames := outer, scope := frame.fold assembly.scope }
  refine ⟨other, ?_, ?_, ?_, ?_⟩
  · simp only [closeBracket?, tracks.any_closes frames closes, decide_eq_true same, if_true,
      emitted, Option.map_some]
  · rw [Assembly.frames_place, scope_eq]
    exact shown
  · rw [scope_eq]
    exact Scope.exact_add_real _ (Token.isReal_closing closes)
  · rw [Assembly.frames_place]
    intro open_frame member
    exact tracks.opened open_frame (frames ▸ List.mem_cons_of_mem _ member)

/-- A token that closes a bracket is placed in the draft wherever it is placed in the assembly. -/
theorem closeBracket (tracks : draft.Tracks assembly) (closes : token.state = .closing bracket) :
    ∃ other, draft.closeBracket? token = some other ∧
      other.Tracks (assembly.closeBracket bracket token) := by
  unfold Assembly.closeBracket
  split
  · -- With nothing open there is no opening that could be closed.
    rename_i frames
    refine tracks.stray _ ?_
    simp [tracks.shows.openings_eq, frames]
  · rename_i frame outer frames
    have closed := tracks.any_closes frames closes
    split
    · rename_i same
      exact tracks.close frames closes same
    · rename_i other
      refine tracks.stray _ ?_
      rw [closed, decide_eq_false other]

/-- Every event is taken in by the draft as it is by the assembly. -/
theorem absorb (tracks : draft.Tracks assembly) (event : Event)
    (single : ∀ found, event = .lexeme found → found.state.isBracket = true →
      ∃ c, found.value = .singleton c) : ∃ other, draft.absorb? event = some other ∧
      other.Tracks (assembly.absorb event) := by
  cases event with
  | turn c ahead old new => exact ⟨draft, rfl, tracks.note _⟩
  | unterminated diagnostic => exact ⟨draft, rfl, tracks.report diagnostic⟩
  | lexeme found =>
    -- The class of the lexeme decides on both sides what becomes of its token.
    have value := single found rfl
    obtain ⟨text, state, start, stop⟩ := found
    cases state with
    | opening bracket => exact tracks.openBracket rfl (value rfl)
    | closing bracket => exact tracks.closeBracket rfl
    | _ => exact tracks.place _

/-- Every index that a draft follows leads somewhere, whatever the events are. -/
theorem foldlM (tracks : draft.Tracks assembly) (events : List Event)
    (single : ∀ found, .lexeme found ∈ events → found.state.isBracket = true →
      ∃ c, found.value = .singleton c) : ∃ other, events.foldlM absorb? draft = some other ∧
      other.Tracks (events.foldl Assembly.absorb assembly) := by
  -- The induction is on the events, and each of them is taken in on both sides.
  induction events generalizing draft assembly with
  | nil => exact ⟨draft, rfl, tracks⟩
  | cons event rest ih =>
    obtain ⟨next, absorbed, tracked⟩ := tracks.absorb event fun found same =>
      single found (same ▸ List.mem_cons_self)
    obtain ⟨other, run, reached⟩ := ih tracked fun found member =>
      single found (List.mem_cons_of_mem _ member)
    refine ⟨other, ?_, reached⟩
    rw [List.foldlM_cons, absorbed]
    exact run

/-- What a scan has found can be followed from the first token on. -/
theorem ofEvents? {scan : Scan} (finds : scan.FindsBrackets)
    (tracks : empty.Tracks assembly) : ∃ draft, Draft.ofEvents? scan.events.toList = some draft ∧
      draft.Tracks (scan.events.toList.foldl Assembly.absorb assembly) :=
  -- A draft of events is the fold of them from the empty one.
  tracks.foldlM _ finds

/-- What is found in a source can be followed to its end. -/
theorem ofSource (options : Options) (source : String) : ∃ draft,
    Draft.ofEvents? (Event.ofSource source) = some draft ∧
      draft.Tracks (.ofSource options source) := by
  have ended := (Scan.keeps_initial.run source.toList).finish
  obtain ⟨draft, drawn, tracks⟩ := ofEvents? ended
    ((initial options.collectDiagnostics).note (.analysing source))
  refine ⟨draft, drawn, ?_⟩
  -- What is reported about the brackets that are still open places nothing.
  rw [Assembly.ofSource, Event.ofSource]
  exact tracks.reportUnclosed

end Tracks

end Draft

/-- However far a source has been read, a draft can follow what has been found without an index
that leads nowhere. Its places lead to what they stand for, it is a draft of what has been
assembled, and a lexeme is pending exactly in the states inside a lexeme. At the end of the source
the forest of the draft is that of the analysis. -/
theorem exists_sound_draft (read rest : List Char) (options : Options) :
    let source := String.ofList (read ++ rest)
    let scan := Scan.initial.advance rest read
    let assembly := scan.events.toList.foldl Assembly.absorb (.initial options.collectDiagnostics)
    (scan.run rest).finish.events.toList = Event.ofSource source ∧
    (∃ draft, Draft.ofEvents? scan.events.toList = some draft ∧ draft.Sound ∧
      draft.Tracks assembly ∧ draft.forest = assembly.forest) ∧
    (scan.pending ≠ "" ↔ scan.mode.state.isPending = true) ∧
    ∃ draft, Draft.ofEvents? (Event.ofSource source) = some draft ∧ draft.Sound ∧
      draft.forest = (analyse source options).forest := by
  intro source scan assembly
  -- What the scanner has found so far is what its invariant says, and the source is read in two
  -- parts.
  have keeps : scan.Keeps := Scan.keeps_initial.advance rest read
  have source_eq : source.toList = read ++ rest := String.toList_ofList
  clear_value source
  refine ⟨?_, ?_, keeps.pending_ne_iff, ?_⟩
  · -- The rest of the source is scanned from where the scan stands.
    rw [Event.ofSource, source_eq, Scan.run_append]
  · -- The events so far can be drawn, since every one of them keeps the draft and the assembly in
    -- step.
    obtain ⟨draft, drawn, tracks⟩ := Draft.Tracks.ofEvents? keeps.finds
      (.initial options.collectDiagnostics)
    exact ⟨draft, drawn, tracks.sound, tracks, tracks.forest_eq⟩
  · -- At the end the same holds of all events, and the analysis keeps the forest of the assembly.
    obtain ⟨draft, drawn, tracks⟩ := Draft.Tracks.ofSource options source
    refine ⟨draft, drawn, tracks.sound, ?_⟩
    rw [tracks.forest_eq, analyse]

/-- Two brackets are open behind the last name, which is the only token inside the inner one. -/
example : (Draft.ofEvents? (Event.ofSource "f(a, [b")).map (fun draft =>
    (draft.openings.map Opening.index, draft.latest)) = some ([1, 3], some [1, 3, 0]) := by
  decide

end XQueryLexer
