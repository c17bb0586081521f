import XQueryLexer.Proofs.Lexeme.Layout
import XQueryLexer.Proofs.Nesting.Pieces

/-! Trees that take the place of others in a nesting leave everything around them as it is. -/

namespace XQueryLexer

/-- Two forests that are the same, except that the one has one scope where the other has another. -/
inductive Forest.Rescopes {α : Type} (old new : Forest α) : Forest α → Forest α → Prop
  | whole : Rescopes old new old new
  | inside (before : Forest α) (item : α) {first second : Forest α} (after : Forest α)
      (deeper : Rescopes old new first second) :
      Rescopes old new (before ++ .group item first :: after)
        (before ++ .group item second :: after)

/-- Two forests that are the same, except that inside one scope the one has some trees, side by
side, where the other has other trees. -/
def Forest.Splices {α : Type} (old new first second : Forest α) : Prop :=
  ∃ before after, Rescopes (before ++ (old ++ after)) (before ++ (new ++ after)) first second

/-- What is put behind both forests is the same. -/
theorem Forest.Splices.append {α : Type} {old new first second : Forest α}
    (spliced : Splices old new first second) (more : Forest α) :
    Splices old new (first ++ more) (second ++ more) := by
  obtain ⟨before, after, rescoped⟩ := spliced
  cases rescoped with
  | whole =>
    -- The scope itself grows by what is put behind it.
    refine ⟨before, after ++ more, ?_⟩
    simp only [List.append_assoc]
    exact .whole
  | inside earlier item later deeper =>
    -- The scope that differs lies inside a group in front of what is added.
    refine ⟨before, after, ?_⟩
    simp only [List.append_assoc, List.cons_append]
    exact .inside earlier item (later ++ more) deeper

namespace Nest

variable {old new : Forest Token}

/-- A bracket that closes around two forests leaves them as different as they are. -/
theorem Level.fold_splices (level : Level) {first second : Forest Token}
    (spliced : Forest.Splices old new first second) :
    Forest.Splices old new (level.fold first) (level.fold second) := by
  -- The difference is one level deeper now, in the group that the bracket makes.
  obtain ⟨before, after, rescoped⟩ := spliced
  exact ⟨before, after, .inside level.before level.opener [] rescoped⟩

/-- Open brackets that are the same, except for what stands before one of them in its scope. -/
inductive Level.Splices (old new : Forest Token) : List Level → List Level → Prop
  | here (bracket : Bracket) (opener : Token) (outer : List Level) {first second : Forest Token}
      (spliced : Forest.Splices old new first second) :
      Level.Splices old new (⟨bracket, opener, first⟩ :: outer) (⟨bracket, opener, second⟩ :: outer)
  | outer (level : Level) {left right : List Level} (spliced : Level.Splices old new left right) :
      Level.Splices old new (level :: left) (level :: right)

/-- Two nests that are the same, except that in one place of them the one has some trees and the
other has other trees. -/
inductive Splices (old new : Forest Token) : Nest → Nest → Prop
  | inside (collecting : Bool) (levels : List Level) (reports : List Diagnostic)
      {first second : Forest Token} (spliced : Forest.Splices old new first second) :
      Splices old new ⟨collecting, levels, first, reports⟩ ⟨collecting, levels, second, reports⟩
  | around (collecting : Bool) (inside : Forest Token) (reports : List Diagnostic)
      {left right : List Level} (spliced : Level.Splices old new left right) :
      Splices old new ⟨collecting, left, inside, reports⟩ ⟨collecting, right, inside, reports⟩

namespace Splices

variable {left right : Nest}

/-- A placed token is placed in both nests alike. -/
theorem place (spliced : left.Splices old new right) (token : Token) :
    Splices old new (left.place token) (right.place token) := by
  cases spliced with
  -- The token goes behind the difference in the innermost scope.
  | inside collecting levels reports spliced =>
    exact .inside collecting levels reports (spliced.append [.leaf token])
  -- The scopes differ further out, and the token goes to the common inside.
  | around collecting inside reports spliced =>
    exact .around collecting (inside ++ [.leaf token]) reports spliced

/-- A fault is reported in both nests alike. -/
theorem report (spliced : left.Splices old new right) (diagnostic : Diagnostic) :
    Splices old new (left.report diagnostic) (right.report diagnostic) := by
  -- Both nests collect faults, or neither does.
  cases spliced with
  | inside collecting levels reports spliced =>
    cases collecting
    · exact .inside false levels reports spliced
    · exact .inside true levels (reports ++ [diagnostic]) spliced
  | around collecting inside reports spliced =>
    cases collecting
    · exact .around false inside reports spliced
    · exact .around true inside (reports ++ [diagnostic]) spliced

/-- A bracket is opened in both nests alike. -/
theorem openBracket (spliced : left.Splices old new right) (bracket : Bracket) (token : Token) :
    Splices old new (left.openBracket bracket token) (right.openBracket bracket token) := by
  cases spliced with
  | inside collecting levels reports spliced =>
    -- What was inside stands before the new bracket from now on.
    exact .around collecting [] reports (.here bracket token levels spliced)
  | @around collecting inside reports left right spliced =>
    exact .around collecting [] reports (.outer ⟨bracket, token, inside⟩ spliced)

/-- A bracket is closed in both nests alike, or is an error in both of them. -/
theorem closeBracket (spliced : left.Splices old new right) (bracket : Bracket) (token : Token) :
    Splices old new (left.closeBracket bracket token) (right.closeBracket bracket token) := by
  -- A bracket that closes nothing is reported and placed.
  have stray (diagnostic : Diagnostic) :=
    (spliced.report diagnostic).place { token with error := true }
  unfold Nest.closeBracket
  cases spliced with
  | inside collecting levels reports spliced =>
    cases levels with
    | nil => exact stray _
    | cons level outer =>
      by_cases same : level.bracket = bracket
      · -- The bracket closes around the place where the two nests differ.
        simp only [if_pos same]
        exact (Splices.inside collecting outer reports (level.fold_splices spliced)).place token
      · simp only [if_neg same]
        exact stray _
  | around collecting inside reports spliced =>
    cases spliced with
    | here top opener outer spliced =>
      by_cases same : top = bracket
      · -- What differs stands in front of the bracket, in the scope that becomes the innermost one.
        simp only [if_pos same]
        exact (Splices.inside collecting outer reports (spliced.append _)).place token
      · simp only [if_neg same]
        exact stray _
    | outer level spliced =>
      by_cases same : level.bracket = bracket
      · -- What differs is further out than the scope that becomes the innermost one.
        simp only [if_pos same]
        exact (Splices.around collecting (level.fold inside) reports spliced).place token
      · simp only [if_neg same]
        exact stray _

/-- A piece is taken in by both nests alike. -/
theorem take (spliced : left.Splices old new right) (piece : Piece) :
    Splices old new (left.take piece) (right.take piece) := by
  -- Each class of pieces is one operation on the nest.
  obtain ⟨value, state⟩ := piece
  cases state with
  | opening bracket => exact spliced.openBracket bracket _
  | closing bracket => exact spliced.closeBracket bracket _
  | _ => exact spliced.place _

/-- Pieces are taken in by both nests alike. -/
theorem foldl_take (spliced : left.Splices old new right) (pieces : List Piece) :
    Splices old new (pieces.foldl Nest.take left) (pieces.foldl Nest.take right) := by
  induction pieces generalizing left right with
  | nil => exact spliced
  | cons piece rest ih =>
    -- One piece leaves the nests as different as they were, and then the others do.
    exact ih (spliced.take piece)

/-- The forests of the two nests differ in the same way. -/
theorem forest (spliced : left.Splices old new right) :
    Forest.Splices old new left.forest right.forest := by
  have folded (levels : List Level) : ∀ {first second : Forest Token},
      Forest.Splices old new first second →
        Forest.Splices old new (Nest.around levels first) (Nest.around levels second) := by
    induction levels with
    | nil => exact id
    | cons level outer ih => exact fun spliced => ih (level.fold_splices spliced)
  cases spliced with
  | inside collecting levels reports spliced => exact folded levels spliced
  | around collecting inside reports spliced =>
    -- Up to the place where they differ, the same brackets are folded.
    induction spliced generalizing inside with
    | here bracket opener outer spliced => exact folded outer (spliced.append _)
    | outer level spliced ih => exact ih (level.fold inside)

end Splices

end Nest

namespace Token

/-- A bracket around nothing, which is one token. -/
def ofEmpty (bracket : Bracket) : Token :=
  .ofState bracket.empty .pair .null

/-- The token that opens a bracket. -/
def ofOpener (bracket : Bracket) : Token :=
  .ofState (.ofList [bracket.opener]) (.opening bracket) .null

/-- The token that closes a bracket. -/
def ofCloser (bracket : Bracket) : Token :=
  .ofState (.ofList [bracket.closer]) (.closing bracket) .null

/-- A space. -/
def space : Token :=
  .ofState (.ofList [' ']) .whitespace .null

end Token

/-- The tree of a bracket around nothing. -/
def Forest.ofEmpty (bracket : Bracket) : Forest Token :=
  [.leaf (.ofEmpty bracket)]

/-- The trees of a bracket around a space. -/
def Forest.ofApart (bracket : Bracket) : Forest Token :=
  [.group (.ofOpener bracket) [.leaf .space], .leaf (.ofCloser bracket)]

/-- A space inside of empty brackets makes a group of them, and touches nothing else. -/
theorem Nest.splices_ofPieces (bracket : Bracket) (front back : List Piece) :
    Splices (Forest.ofEmpty bracket) (Forest.ofApart bracket)
      (ofPieces (front ++ .ofEmpty bracket :: back))
      (ofPieces (front ++ (Piece.ofApart bracket ++ back))) := by
  rw [ofPieces, ofPieces, List.foldl_append, List.foldl_append, List.foldl_append, List.foldl_cons]
  generalize front.foldl take (.initial false) = nest
  refine Splices.foldl_take ?_ back
  -- The bracket that is opened is the innermost one when it is closed.
  have closed : (Piece.ofApart bracket).foldl take nest =
      { nest with inside := nest.inside ++ (Forest.ofApart bracket ++ []) } := by
    simp only [Piece.ofApart, List.foldl_cons, List.foldl_nil, take, add, openBracket, place,
      closeBracket, if_true, Level.fold, Forest.ofApart, List.nil_append, List.append_nil,
      List.append_assoc, List.cons_append]
    rfl
  rw [closed]
  exact .inside nest.collecting nest.levels nest.reports ⟨nest.inside, [], .whole⟩

end XQueryLexer
