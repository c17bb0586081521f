import XQueryLexer.Analysis

/-! A forest that grows in place, where open brackets are known by their places among their siblings
and the latest real token by its path. -/

namespace XQueryLexer

/-- What is remembered of an open bracket. -/
structure Opening where
  /-- The number of siblings before the bracket. -/
  index : Nat
  /-- The class of the token that opened it. -/
  state : LexState
  /-- The character that opened it. -/
  char : Char
  /-- The byte offset of that character. -/
  position : UInt32
  deriving DecidableEq, Repr

/-- A forest of tokens that grows, with the places at which it does. -/
structure Draft where
  /-- The forest so far. -/
  forest : Forest Token
  /-- The open brackets, outermost first. -/
  openings : List Opening
  /-- The path to the latest real token of the innermost open scope, if there is one. -/
  latest : Option (List Nat)

namespace Draft

/-- The draft before the first token. -/
def empty : Draft :=
  ⟨[], [], none⟩

/-- Where the innermost open scope stands. -/
def address (draft : Draft) : List Nat :=
  draft.openings.map Opening.index

/-- Gives the token at a path another role, if there is a new one. -/
def relabel? (draft : Draft) (path : List Nat) : Option Kind → Option Draft
  | none => some draft
  | some kind => do
    let forest ← draft.forest.alterItem? ({ · with kind }) path
    return { draft with forest }

/-- Gives the latest real token another role, if there is a new one. -/
def relabelLatest? (draft : Draft) (kind : Option Kind) : Option Draft :=
  match draft.latest with
  | none => some draft
  | some path => draft.relabel? path kind

/-- The token that is the context of the next one. -/
def context? (draft : Draft) : Option Token :=
  match draft.latest with
  | none => some .scopeStart
  | some path => draft.forest.itemAt? path

/-- Lets the token at a path settle the role of the latest real one. -/
def settle? (draft : Draft) (path : List Nat) : Option Draft :=
  match draft.latest with
  | none => some draft
  | some latest => do
    let previous ← draft.forest.itemAt? latest
    let token ← draft.forest.itemAt? path
    draft.relabel? latest (previous.settledBy? token)

/-- Gives the token at a path its own role, and perhaps the latest real one another role. -/
def label? (draft : Draft) (path : List Nat) : Option Draft := do
  let token ← draft.forest.itemAt? path
  let previous ← draft.context?
  let labels := token.labelsAfter previous
  let relabelled ← draft.relabelLatest? labels.previous
  relabelled.relabel? path labels.current

/-- Places a tree in the innermost open scope, and returns its place among its siblings. -/
def emit? (draft : Draft) (tree : Tree Token) : Option (Draft × Nat) := do
  let scope ← draft.forest.scopeAt? draft.address
  let forest ← draft.forest.alter? (fun scope => some (scope ++ [tree])) draft.address
  let path := draft.address ++ [scope.length]
  let settled ← { draft with forest : Draft }.settle? path
  let labelled ← settled.label? path
  let latest := if tree.item.isReal then some path else labelled.latest
  return ({ labelled with latest }, scope.length)

/-- Places a token that opens a bracket, and enters the scope inside it. -/
def openBracket? (draft : Draft) (token : Token) : Option Draft := do
  let (placed, index) ← draft.emit? (.group token [])
  let opening := ⟨index, token.state, token.value.front, token.span.start⟩
  return { placed with openings := placed.openings ++ [opening], latest := none }

/-- Places a token that closes a bracket. If it closes the innermost one, that is left before, but
the latest real token stays where it is until the token has been placed. -/
def closeBracket? (draft : Draft) (token : Token) : Option Draft :=
  let closes := draft.openings.getLast?.any fun opening =>
    opening.state.closedBy? = some token.state
  let emitted :=
    if closes then { draft with openings := draft.openings.dropLast : Draft }.emit? (.leaf token)
    else draft.emit? (.leaf { token with error := true })
  emitted.map Prod.fst

/-- Takes in one event of the scanner. -/
def absorb? (draft : Draft) : Event → Option Draft
  | .turn _ _ _ _ | .unterminated _ => some draft
  | .lexeme found =>
    let token := Token.ofState found.value found.state (.ofOffsets found.start found.stop)
    match found.state with
    | .opening _ => draft.openBracket? token
    | .closing _ => draft.closeBracket? token
    | _ => (draft.emit? (.leaf token)).map Prod.fst

/-- The draft of some events, which is none if an index ever leads nowhere. -/
def ofEvents? (events : List Event) : Option Draft :=
  events.foldlM absorb? empty

end Draft

end XQueryLexer
