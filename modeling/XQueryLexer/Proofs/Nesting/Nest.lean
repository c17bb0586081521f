import XQueryLexer.Analysis
import XQueryLexer.Proofs.Lexeme.Run
import XQueryLexer.Proofs.Nesting.Forest

/-! The nesting of tokens and the faults it shows, which the roles of the tokens do not touch. -/

namespace XQueryLexer

/-- A token with the role that its class suggests, as it was before its context was known. -/
def Token.reset (token : Token) : Token :=
  { token with kind := .ofState token.state }

/-- Tokens that have been reset have the roles that their classes suggest. -/
theorem Token.reset_of_mem_map {tokens : List Token} :
    ∀ token ∈ tokens.map Token.reset, token.reset = token :=
  -- To reset a token twice is to reset it once.
  List.forall_mem_map.mpr fun _ _ => rfl

/-- A name whose context is not known is nothing but a name. -/
theorem Token.kind_of_fresh {token : Token} (fresh : token.reset = token)
    (name : token.state = .word .bare) : token.kind = .plainName := by
  -- A fresh token has the kind that its class suggests.
  rw [← congrArg Token.kind fresh, reset, name]
  rfl

/-- A bracket that is open in a nest. -/
structure Nest.Level where
  /-- The bracket that is open. -/
  bracket : Bracket
  /-- The token that opened it. -/
  opener : Token
  /-- The trees before the opening token in the scope around the bracket. -/
  before : Forest Token

/-- The nesting of the tokens so far, and what was wrong with it. -/
structure Nest where
  /-- Whether faults are collected. -/
  collecting : Bool
  /-- The open brackets, innermost first. -/
  levels : List Nest.Level
  /-- The trees of the innermost open scope. -/
  inside : Forest Token
  /-- The faults collected so far. -/
  reports : List Diagnostic

namespace Nest

/-- The nesting before the first token. -/
def initial (collecting : Bool) : Nest :=
  ⟨collecting, [], [], []⟩

/-- The scope around a bracket once everything inside the bracket is known. -/
def Level.fold (level : Level) (inside : Forest Token) : Forest Token :=
  level.before ++ [.group level.opener inside]

/-- The whole forest around an innermost scope, where brackets still open end with the source. -/
def around (levels : List Level) (inside : Forest Token) : Forest Token :=
  levels.foldl (fun inside level => level.fold inside) inside

/-- The innermost of some open brackets closes around the scope, and the others around that. -/
theorem around_cons (level : Level) (outer : List Level) (inside : Forest Token) :
    around (level :: outer) inside = around outer (level.fold inside) :=
  rfl

/-- What is wrong with a bracket that is never closed. -/
def Level.fault (level : Level) : Diagnostic :=
  ⟨.unclosedBracket level.opener.value, level.opener.span.start⟩

/-- Collects a fault, if faults are collected. -/
def report (nest : Nest) (diagnostic : Diagnostic) : Nest :=
  if nest.collecting then { nest with reports := nest.reports ++ [diagnostic] } else nest

/-- Places a token that nothing is nested inside of. -/
def place (nest : Nest) (token : Token) : Nest :=
  { nest with inside := nest.inside ++ [.leaf token] }

/-- Places a token that opens a bracket, and enters the scope inside it. -/
def openBracket (nest : Nest) (bracket : Bracket) (token : Token) : Nest :=
  { nest with levels := ⟨bracket, token, nest.inside⟩ :: nest.levels, inside := [] }

/-- Places a token that closes a bracket, leaving the innermost scope if that is the bracket. -/
def closeBracket (nest : Nest) (bracket : Bracket) (token : Token) : Nest :=
  match nest.levels with
  | [] =>
    (nest.report ⟨.unmatchedCloser token.value, token.span.start⟩).place
      { token with error := true }
  | level :: outer =>
    if level.bracket = bracket then
      { nest with levels := outer, inside := level.fold nest.inside }.place token
    else
      let fault := Fault.mismatchedCloser level.bracket.closer bracket.closer
      (nest.report ⟨fault, token.span.start⟩).place { token with error := true }

/-- Places the token of a lexeme. -/
def add (nest : Nest) (found : Lexeme) : Nest :=
  let token := Token.ofState found.value found.state (.ofOffsets found.start found.stop)
  match found.state with
  | .opening bracket => nest.openBracket bracket token
  | .closing bracket => nest.closeBracket bracket token
  | _ => nest.place token

/-- Takes in one event of the scanner. -/
def absorb (nest : Nest) : Event → Nest
  | .turn _ _ _ _ => nest
  | .unterminated diagnostic => nest.report diagnostic
  | .lexeme found => nest.add found

/-- Reports every bracket that is still open, innermost first. -/
def reportUnclosed (nest : Nest) : Nest :=
  nest.levels.foldl (fun reported level => reported.report level.fault) nest

/-- The forest of all tokens, where brackets still open end with the source. -/
def forest (nest : Nest) : Forest Token :=
  nest.levels.foldl (fun inside level => level.fold inside) nest.inside

/-- The nesting that a text shows. -/
def ofText (collecting : Bool) (text : List Char) : Nest :=
  (Event.ofText 0 text).foldl absorb (.initial collecting)

/-- Reporting a fault opens and closes nothing. -/
@[simp] theorem levels_report (nest : Nest) (diagnostic : Diagnostic) :
    (nest.report diagnostic).levels = nest.levels := by
  -- A diagnostic is recorded or not, and the levels are left alone either way.
  unfold report
  split <;> rfl

/-- Open brackets are collected one after the other, and nothing else changes. -/
theorem reportUnclosed_eq (nest : Nest) : nest.reportUnclosed =
    if nest.collecting then { nest with reports := nest.reports ++ nest.levels.map Level.fault }
    else nest := by
  -- The levels that are left to report stay apart from those of the nest that grows.
  have grown (levels : List Level) : ∀ nest : Nest,
      levels.foldl (fun reported level => reported.report level.fault) nest =
        if nest.collecting then { nest with reports := nest.reports ++ levels.map Level.fault }
        else nest := by
    induction levels with
    | nil => intro nest; simp
    | cons level outer ih =>
      intro nest
      rw [List.foldl_cons, ih, report]
      cases collecting : nest.collecting <;> simp [collecting]
  exact grown nest.levels nest

/-- Reporting open brackets leaves the forest as it is. -/
theorem forest_reportUnclosed (nest : Nest) : nest.reportUnclosed.forest = nest.forest := by
  -- Only the list of diagnostics changes, if there are any to report.
  rw [reportUnclosed_eq]
  split <;> rfl

/-- Turns of the automaton have no part in the nesting. -/
theorem foldl_findings (nest : Nest) (events : List Event) :
    (events.filter Event.isFinding).foldl absorb nest = events.foldl absorb nest := by
  -- Of the events only a turn is filtered out, and absorbing one changes nothing.
  induction events generalizing nest with
  | nil => rfl
  | cons event rest ih => cases event <;> exact ih _

end Nest

namespace Scope

/-- The trees of a scope, without the roles that its tokens have been given. -/
def shape (scope : Scope) : Forest Token :=
  Forest.map Token.reset scope.trees

/-- A tree that is placed in a scope stands behind the trees before it, real or not. -/
theorem trees_add (scope : Scope) (tree : Tree Token) :
    (scope.add tree).trees = scope.trees ++ [tree] := by
  unfold add
  split
  · -- A real tree becomes the latest one, with everything so far before it.
    simp [trees, contents]
  · -- Layout stands behind the latest real tree, whether there is one or not.
    cases latest : scope.latest <;> simp [trees, contents, latest]

/-- A placed tree is the last one of the shape. -/
theorem shape_add (scope : Scope) (tree : Tree Token) :
    (scope.add tree).shape = scope.shape ++ [tree.map Token.reset] := by
  -- The tree goes to the end of the trees, and its shape to the end of theirs.
  rw [shape, trees_add, Forest.map_append]
  rfl

/-- A new role for the latest real token does not show in the shape. -/
theorem shape_relabel (scope : Scope) (kind : Kind) : (scope.relabel kind).shape = scope.shape := by
  -- Only the head of one tree changes, and there only the role that resetting overwrites.
  have hidden (tree : Tree Token) :
      (tree.mapHead ({ · with kind })).map Token.reset = tree.map Token.reset := by
    apply Tree.map_mapHead
    intro token
    rfl
  cases latest : scope.latest with
  | none => simp [shape, trees, contents, relabel, latest]
  | some tree => simp [shape, trees, contents, relabel, latest, Forest.map, hidden]

end Scope

/-- An open bracket in the nesting. -/
def Frame.level (frame : Frame) : Nest.Level :=
  ⟨frame.bracket, frame.opener.reset, frame.outer.shape⟩

/-- A bracket closes around the shape of what is inside it. -/
theorem Frame.shape_fold (frame : Frame) (inside : Scope) :
    (frame.fold inside).shape = frame.level.fold inside.shape :=
  -- The bracket and its inside are one tree, placed in the scope around it.
  Scope.shape_add frame.outer _

namespace Assembly

/-- The nesting of an assembly, without the roles that its tokens have been given. -/
def nest (assembly : Assembly) : Nest :=
  ⟨assembly.collecting, assembly.frames.map Frame.level, assembly.scope.shape,
    assembly.diagnostics.toList⟩

/-- A diagnostic is reported in the nesting too. -/
theorem nest_report (assembly : Assembly) (diagnostic : Diagnostic) :
    (assembly.report diagnostic).nest = assembly.nest.report diagnostic := by
  -- Both keep the diagnostic under the same condition.
  unfold report Nest.report
  cases collecting : assembly.collecting <;> simp [nest, note, collecting]

/-- A new role does not show in the nesting. -/
theorem nest_relabel (assembly : Assembly) (kind : Option Kind) :
    (assembly.relabel kind).nest = assembly.nest := by
  -- Roles are forgotten by the shape of a scope.
  unfold relabel
  split
  · simp only [nest, note, Scope.shape_relabel]
  · rfl

/-- What a token is announced with does not show in the nesting. -/
theorem nest_announce (assembly : Assembly) (token : Token) :
    (assembly.announce token).1.nest = assembly.nest := by
  -- Announcing records the token and relabels the latest real one before it.
  simp only [announce, settle, nest_relabel]
  rfl

/-- A token is placed in the nesting without its role. -/
theorem nest_place (assembly : Assembly) (token : Token) :
    (assembly.place token).nest = assembly.nest.place token.reset := by
  -- The label of the token is a role too, so the placed tree is the same without it.
  have announced := assembly.nest_announce token
  simp only [nest, Nest.mk.injEq] at announced
  simp only [place, nest, Nest.place, announced, Scope.shape_add]
  rfl

/-- A bracket is opened in the nesting by a token without its role. -/
theorem nest_openBracket (assembly : Assembly) (bracket : Bracket) (token : Token) :
    (assembly.openBracket bracket token).nest = assembly.nest.openBracket bracket token.reset := by
  -- The scope that is left keeps its shape, and the new one is empty on both sides.
  have announced := assembly.nest_announce token
  simp only [nest, Nest.mk.injEq] at announced
  simp only [openBracket, nest, Nest.openBracket, announced, List.map_cons, Frame.level]
  rfl

/-- A bracket is closed in the nesting by a token without its role. -/
theorem nest_closeBracket (assembly : Assembly) (bracket : Bracket) (token : Token) :
    (assembly.closeBracket bracket token).nest =
      assembly.nest.closeBracket bracket token.reset := by
  have levels : assembly.nest.levels = assembly.frames.map Frame.level := rfl
  unfold closeBracket Nest.closeBracket
  rw [levels]
  cases assembly.frames with
  -- With nothing open the fault is reported before the token is placed.
  | nil => rw [nest_place, nest_report]; rfl
  | cons frame outer =>
    simp only [List.map_cons]
    by_cases same : frame.bracket = bracket
    · -- The scope inside the bracket becomes one tree of the scope around it.
      have folded := frame.shape_fold assembly.scope
      rw [if_pos same, if_pos (show frame.level.bracket = bracket from same), nest_place]
      simp only [nest, folded]
    · rw [if_neg same, if_neg (show frame.level.bracket ≠ bracket from same), nest_place,
        nest_report]
      rfl

/-- An event has the same part in the nesting, whatever roles it leads to. -/
theorem nest_absorb (assembly : Assembly) (event : Event) :
    (assembly.absorb event).nest = assembly.nest.absorb event := by
  cases event with
  | turn c ahead old new => rfl
  | unterminated diagnostic => exact nest_report assembly diagnostic
  | lexeme found =>
    -- A token comes with the role that its class suggests, so that resetting it changes nothing.
    simp only [absorb, Nest.absorb, Nest.add]
    cases found.state with
    | opening bracket => exact nest_openBracket assembly bracket _
    | closing bracket => exact nest_closeBracket assembly bracket _
    | _ => exact nest_place assembly _

/-- The events of a source have the same part in the nesting, one after the other. -/
theorem nest_foldl_absorb (assembly : Assembly) (events : List Event) :
    (events.foldl absorb assembly).nest = events.foldl Nest.absorb assembly.nest := by
  -- The induction is on the events, with the assembly before them left open.
  induction events generalizing assembly with
  | nil => rfl
  | cons event rest ih => rw [List.foldl_cons, List.foldl_cons, ih, nest_absorb]

/-- The brackets that are still open are reported in the nesting too. -/
theorem nest_reportUnclosed (assembly : Assembly) :
    assembly.reportUnclosed.nest = assembly.nest.reportUnclosed := by
  have levels : assembly.nest.levels = assembly.frames.map Frame.level := rfl
  -- The open brackets stay as they are while they are reported, so only the reports grow.
  have grown (frames : List Frame) : ∀ assembly : Assembly,
      (frames.foldl (fun reported frame => reported.report
        ⟨.unclosedBracket frame.opener.value, frame.opener.span.start⟩) assembly).nest =
      (frames.map Frame.level).foldl (fun reported level => reported.report level.fault)
        assembly.nest := by
    induction frames with
    | nil => intro assembly; rfl
    | cons frame outer ih =>
      intro assembly
      rw [List.map_cons, List.foldl_cons, List.foldl_cons, ih, nest_report]
      rfl
  rw [reportUnclosed, Nest.reportUnclosed, levels]
  exact grown _ _

/-- The forest of an assembly has the nesting of the assembly. -/
theorem map_reset_forest (assembly : Assembly) :
    Forest.map Token.reset assembly.forest = assembly.nest.forest := by
  -- The open brackets are folded one by one, innermost first, on both sides.
  have folded (frames : List Frame) : ∀ scope : Scope,
      (frames.foldl (fun inside frame => frame.fold inside) scope).shape =
        Nest.around (frames.map Frame.level) scope.shape := by
    induction frames with
    | nil => intro scope; rfl
    | cons frame outer ih =>
      intro scope
      rw [List.map_cons, List.foldl_cons, ih, frame.shape_fold, Nest.around_cons]
  exact folded _ _

/-- The assembly of a source has the nesting that the text of the source shows. -/
theorem nest_ofSource (options : Options) (source : String) : (ofSource options source).nest =
    (Nest.ofText options.collectDiagnostics source.toList).reportUnclosed := by
  -- Of the events of the source, the nesting takes in what the text shows.
  rw [ofSource, nest_reportUnclosed, nest_foldl_absorb, ← Nest.foldl_findings, findings_ofSource]
  rfl

end Assembly

/-- The tokens that are found in a source are nested as its text shows. -/
theorem map_reset_analyse (source : String) (options : Options) :
    Forest.map Token.reset (analyse source options).forest =
      (Nest.ofText options.collectDiagnostics source.toList).forest := by
  -- The nesting of the whole run is that of the text, and its forest is the shape of the other.
  rw [← Nest.forest_reportUnclosed, ← Assembly.nest_ofSource]
  exact Assembly.map_reset_forest _

/-- The diagnostics of a source are what is reported about the nesting that its text shows. -/
theorem analyse_diagnostics (source : String) (options : Options) :
    (analyse source options).diagnostics =
      (Nest.ofText options.collectDiagnostics source.toList).reportUnclosed.reports :=
  -- The nest of the assembly keeps its reports, and it is that of the text.
  congrArg Nest.reports (Assembly.nest_ofSource options source)

end XQueryLexer
