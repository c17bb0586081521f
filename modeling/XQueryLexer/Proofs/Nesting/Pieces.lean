import XQueryLexer.Proofs.Lexeme.Coverage
import XQueryLexer.Proofs.Naming.Pass

/-! The nesting of a source is decided by the pieces of its text, and layout has no part in it. -/

namespace XQueryLexer

/-- Whether every bracket is among the classes that are kept, so that the nesting is. -/
def KeepsBrackets (keep : LexState → Bool) : Prop :=
  ∀ state : LexState, state.isBracket = true → keep state = true

/-- The tokens of a forest whose classes are kept, at every depth and wherever they stand. -/
def Forest.bare (keep : LexState → Bool) (forest : Forest Token) : Forest Token :=
  map Token.unplaced (prune (fun token => keep token.state) forest)

namespace Forest

variable {keep : LexState → Bool}

/-- Forests side by side are stripped side by side. -/
@[simp] theorem bare_append (first second : Forest Token) :
    bare keep (first ++ second) = bare keep first ++ bare keep second := by
  simp [bare]

/-- Everything inside a bracket that is kept is stripped too. -/
theorem bare_group {opener : Token} (kept : keep opener.state = true) (inside : Forest Token) :
    bare keep [.group opener inside] = [.group opener.unplaced (bare keep inside)] := by
  simp [bare, prune, Tree.prune, map, Tree.map, Tree.item, kept]

/-- A token by itself is stripped, or it is left out. -/
theorem bare_leaf (token : Token) :
    bare keep [.leaf token] = if keep token.state then [.leaf token.unplaced] else [] := by
  -- Pruning keeps the leaf or not, by its class.
  cases kept : keep token.state <;> simp [bare, prune, Tree.prune, map, Tree.map, Tree.item, kept]

end Forest

namespace Nest

variable {keep : LexState → Bool} {nest : Nest} {token : Token} {bracket : Bracket}

/-- An open bracket in a nesting of pieces. -/
def Level.bare (keep : LexState → Bool) (level : Level) : Level :=
  ⟨level.bracket, level.opener.unplaced, Forest.bare keep level.before⟩

/-- What pieces alone say about the nesting of the tokens so far. -/
def bare (keep : LexState → Bool) (nest : Nest) : Nest :=
  ⟨false, nest.levels.map (Level.bare keep), Forest.bare keep nest.inside, []⟩

/-- Takes in one piece, wherever it stands. -/
def take (nest : Nest) (piece : Piece) : Nest :=
  nest.add ⟨piece.value, piece.state, 0, 0⟩

/-- The nesting of pieces. -/
def ofPieces (pieces : List Piece) : Nest :=
  pieces.foldl take (.initial false)

/-- A nest whose open brackets are all kept. -/
def KeepsOpen (keep : LexState → Bool) (nest : Nest) : Prop :=
  ∀ level ∈ nest.levels, keep level.opener.state = true

/-- A reported fault is nothing that pieces say. -/
@[simp] theorem bare_report (nest : Nest) (diagnostic : Diagnostic) :
    (nest.report diagnostic).bare keep = nest.bare keep := by
  -- A diagnostic is recorded or not, and the levels are left alone either way.
  unfold report
  split <;> rfl

/-- A placed token is placed without its place in the source, or it is left out. -/
theorem bare_place (nest : Nest) (token : Token) : (nest.place token).bare keep =
    if keep token.state then (nest.bare keep).place token.unplaced else nest.bare keep := by
  -- Stripping is done tree by tree, and the token is the last tree.
  simp only [bare, place, Forest.bare_append, Forest.bare_leaf]
  split <;> simp

/-- A bracket that is kept closes around what is kept of its inside. -/
theorem Level.bare_fold {level : Level} (kept : keep level.opener.state = true)
    (inside : Forest Token) :
    Forest.bare keep (level.fold inside) = (level.bare keep).fold (Forest.bare keep inside) := by
  -- The group is stripped as a whole, behind what is kept in front of it.
  rw [fold, Forest.bare_append, Forest.bare_group kept]
  rfl

/-- A closing bracket that is kept closes the same bracket in the nesting of pieces. -/
theorem bare_closeBracket (keeps : nest.KeepsOpen keep) (kept : keep token.state = true) :
    (nest.closeBracket bracket token).bare keep =
      (nest.bare keep).closeBracket bracket token.unplaced := by
  have levels : (nest.bare keep).levels = nest.levels.map (Level.bare keep) := rfl
  unfold closeBracket
  rw [levels]
  cases stack : nest.levels with
  | nil =>
    -- With nothing open the token is an error, in the nesting of pieces too.
    rw [bare_place, if_pos kept, bare_report]
    rfl
  | cons level outer =>
    have opener : keep level.opener.state = true := keeps level (by simp [stack])
    simp only [List.map_cons]
    by_cases same : level.bracket = bracket
    · -- What is kept of the scope inside becomes a tree of the scope around the bracket.
      rw [if_pos same, if_pos (show (level.bare keep).bracket = bracket from same), bare_place,
        if_pos kept]
      simp only [bare, Level.bare_fold opener]
    · -- Another bracket is open, and stays open.
      rw [if_neg same, if_neg (show (level.bare keep).bracket ≠ bracket from same), bare_place,
        if_pos kept, bare_report]
      rfl

/-- A closing bracket opens nothing. -/
theorem KeepsOpen.closeBracket (keeps : nest.KeepsOpen keep) (bracket : Bracket) (token : Token) :
    (nest.closeBracket bracket token).KeepsOpen keep := by
  unfold Nest.closeBracket
  split
  · -- The token is placed as an error, which touches no level.
    simpa [KeepsOpen, place] using keeps
  · rename_i level outer levels
    split
    · -- The levels that stay open were open before.
      intro other held
      exact keeps other (by rw [levels]; exact List.mem_cons_of_mem _ held)
    · simpa [KeepsOpen, place] using keeps

/-- Brackets are opened by tokens that are kept, and nothing else is opened. -/
theorem KeepsOpen.add (brackets : KeepsBrackets keep)
    (keeps : nest.KeepsOpen keep) (found : Lexeme) : (nest.add found).KeepsOpen keep := by
  obtain ⟨value, state, start, stop⟩ := found
  cases state with
  | opening bracket =>
    -- The new level is opened by the bracket itself, which is kept.
    intro level held
    rcases List.mem_cons.mp held with rfl | outer
    · exact brackets _ rfl
    · exact keeps level outer
  | closing bracket => exact keeps.closeBracket bracket _
  | _ => exact keeps

/-- A lexeme has the same part in the nesting of pieces as the piece that it is, if that is kept. -/
theorem bare_add (brackets : KeepsBrackets keep)
    (keeps : nest.KeepsOpen keep) (found : Lexeme) : (nest.add found).bare keep =
      if keep found.state then (nest.bare keep).take ⟨found.value, found.state⟩
      else nest.bare keep := by
  obtain ⟨value, state, start, stop⟩ := found
  cases state with
  | opening bracket =>
    rw [if_pos (brackets _ rfl)]
    rfl
  | closing bracket =>
    have kept : keep (.closing bracket) = true := brackets _ rfl
    rw [if_pos kept]
    exact bare_closeBracket keeps kept
  | _ =>
    -- Every other lexeme is placed, and it may be left out.
    exact bare_place nest _

/-- Events have the same part in the nesting of pieces as the pieces they hand on and that are
kept. -/
theorem bare_foldl_absorb (brackets : KeepsBrackets keep)
    (keeps : nest.KeepsOpen keep) (events : List Event) :
    (events.foldl absorb nest).bare keep =
        ((events.filterMap Event.piece?).filter fun piece => keep piece.state).foldl take
          (nest.bare keep) ∧
      (events.foldl absorb nest).KeepsOpen keep := by
  -- The levels stay open by tokens that are kept, which is what a closing bracket relies on.
  induction events generalizing nest with
  | nil => exact ⟨rfl, keeps⟩
  | cons event rest ih =>
    cases event with
    | turn c ahead old new => exact ih keeps
    | unterminated diagnostic =>
      have reported : (nest.report diagnostic).KeepsOpen keep := by simpa [KeepsOpen] using keeps
      obtain ⟨same, kept⟩ := ih reported
      rw [bare_report] at same
      exact ⟨same, kept⟩
    | lexeme found =>
      obtain ⟨same, kept⟩ := ih (keeps.add brackets found)
      refine ⟨?_, kept⟩
      rw [List.foldl_cons, absorb, same, bare_add brackets keeps,
        List.filterMap_cons_some (show Event.piece? (.lexeme found) = some _ from rfl),
        List.filter_cons]
      split <;> rfl

/-- Brackets that are still open are folded in the nesting of pieces too. -/
theorem bare_forest (keeps : nest.KeepsOpen keep) :
    Forest.bare keep nest.forest = (nest.bare keep).forest := by
  -- From the innermost bracket to the outermost, each closes around what is kept of its inside.
  have folded (levels : List Level) (kept : ∀ level ∈ levels, keep level.opener.state = true) :
      ∀ inside : Forest Token,
        Forest.bare keep (around levels inside) =
          around (levels.map (Level.bare keep)) (Forest.bare keep inside) := by
    induction levels with
    | nil => intro inside; rfl
    | cons level outer ih =>
      intro inside
      obtain ⟨opener, others⟩ := List.forall_mem_cons.mp kept
      rw [around_cons, ih others, Level.bare_fold opener]
      rfl
  exact folded nest.levels keeps nest.inside

end Nest

/-- The tokens of a source that are kept are nested as the pieces of its text that are kept. -/
theorem bare_analyse {keep : LexState → Bool} (brackets : KeepsBrackets keep) (source : String)
    (options : Options) :
    Forest.map Token.reset (Forest.bare keep (analyse source options).forest) =
      (Nest.ofPieces
        ((Piece.ofText source.toList).filter fun piece => keep piece.state)).forest := by
  have start : (Nest.initial options.collectDiagnostics).KeepsOpen keep := by
    simp [Nest.KeepsOpen, Nest.initial]
  obtain ⟨same, kept⟩ := Nest.bare_foldl_absorb brackets start (Event.ofText 0 source.toList)
  -- Roles have no part in what is kept, so that they can be reset before or after.
  have commutes (forest : Forest Token) : Forest.map Token.reset (Forest.bare keep forest) =
      Forest.bare keep (Forest.map Token.reset forest) := by
    rw [Forest.bare, Forest.bare, Forest.prune_map, Forest.map_map, Forest.map_map]
    rfl
  rw [commutes, map_reset_analyse, Nest.ofText, Nest.bare_forest kept, same, Event.pieces_ofText]
  rfl

/-- The tokens of a source are nested as all the pieces of its text are. -/
theorem unplaced_analyse (source : String) (options : Options) :
    Forest.map Token.reset (Forest.map Token.unplaced (analyse source options).forest) =
      (Nest.ofPieces (Piece.ofText source.toList)).forest := by
  -- This is the case in which every class of pieces is kept.
  have nested := @bare_analyse (fun _ => true) (fun _ _ => rfl) source options
  rw [Forest.bare, Forest.prune_true, List.filter_eq_self.mpr (fun _ _ => rfl)] at nested
  exact nested

end XQueryLexer
