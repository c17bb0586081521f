import XQueryLexer.Token
import XQueryLexer.Vocabulary

/-! The rules by which the tokens around a name decide its role. -/

namespace XQueryLexer

/-- The roles that a name gives to the real token before it and takes itself, where it does. -/
structure Labels where
  /-- The new role of the token before the name. -/
  previous : Option Kind
  /-- The new role of the name. -/
  current : Option Kind
  deriving DecidableEq, Repr

namespace Labels

/-- No new role at all. -/
def none : Labels :=
  ⟨.none, .none⟩

/-- A new role for the name only, if there is one. -/
def currentOnly (kind : Option Kind) : Labels :=
  ⟨.none, kind⟩

end Labels

namespace Kind

/-- The role of a name that arguments follow. -/
def ofCall (name : String) : Kind :=
  if nodeTypes.contains name then nodeType else function

/-- The role of a name where an operator can stand, if it is a keyword. -/
def ofKeyword? (name : String) : Option Kind :=
  if keywords.contains name then some operator else none

/-- The role of a name after an operator that is written as a name, if a type follows that. -/
def afterOperator? (name : String) : Option Kind :=
  if name = "as" || name = "of" then some simpleType else none

end Kind

namespace Token

/-- The role that the real token after an unresolved name settles for it. -/
def settledBy? (previous current : Token) : Option Kind :=
  if previous.state ≠ .word .bare || !previous.kind.isUnresolvedName then none
  else match current.state with
  | .word .dollar => if rangeBinders.contains previous.value then some .declaration else none
  | .opening .round =>
    if previous.value = "if" then some .operator else some (.ofCall previous.value)
  | .pair =>
    if current.value = "::" then if axes.contains previous.value then some .axis else none
    else if current.value = "()" then some (.ofCall previous.value)
    else none
  -- Array and map constructors are operators.
  | .opening .square => if previous.value = "array" then some .operator else none
  | .opening .curly =>
    if previous.value = "map" || previous.value = "array" then some .operator else none
  | _ => none

/-- The roles that a name takes and gives after the latest real token of its scope. -/
def labelsAfter (current previous : Token) : Labels :=
  if current.state ≠ .word .bare then .none
  else match previous.state with
  | .word .bare =>
    if isWordPair previous.value current.value then ⟨some .operator, some .operator⟩
    else match previous.kind with
    | .operator => .currentOnly (Kind.afterOperator? previous.value)
    | .plainName | .simpleType | .nodeType => .currentOnly (Kind.ofKeyword? current.value)
    | _ => .none
  | .closing _ | .word _ | .number | .quoted _ => .currentOnly (Kind.ofKeyword? current.value)
  | .separator =>
    if previous.value = "." then .currentOnly (Kind.ofKeyword? current.value) else .none
  | .pair =>
    if previous.value = "()" || previous.value = ".." then
      .currentOnly (Kind.ofKeyword? current.value)
    else .none
  | _ => if previous.kind = .unset then .currentOnly (Kind.ofKeyword? current.value) else .none

/-- A token with another role, if there is a new one. -/
def relabel (token : Token) (kind : Option Kind) : Token :=
  { token with kind := kind.getD token.kind }

/-- The latest real token and the token after it, with the roles that each gives to the other. -/
def meet (kept : Option Token) (token : Token) : Option Token × Token :=
  -- The earlier token is settled first, because its role counts for the later one.
  let settled := kept.map fun previous => previous.relabel (previous.settledBy? token)
  let labels := token.labelsAfter (settled.getD .scopeStart)
  (settled.map (·.relabel labels.previous), token.relabel labels.current)

/-- What the next real token behind a token makes of it, if there is one. -/
def followedBy (token : Token) : Option Token → Token
  | none => token
  | some next => ((meet (some token) next).1).getD token

end Token

/-- The tokens of a scope that have been passed, and the place of the latest real one of them. -/
structure Pass where
  /-- The tokens with their roles so far. -/
  tokens : List Token
  /-- Where the latest real token stands, if there is one. -/
  latest : Option Nat

namespace Pass

/-- The pass before the first token. -/
def start : Pass :=
  ⟨[], none⟩

/-- The latest real token. -/
def latestToken? (pass : Pass) : Option Token :=
  pass.latest.bind (pass.tokens[·]?)

/-- Puts a token in the place of the latest real one. -/
def replace (pass : Pass) (kept : Option Token) : Pass :=
  match pass.latest, kept with
  | some place, some token => { pass with tokens := pass.tokens.set place token }
  | _, _ => pass

/-- Puts a token behind all others. -/
def push (pass : Pass) (token : Token) : Pass :=
  ⟨pass.tokens ++ [token], if token.isReal then some pass.tokens.length else pass.latest⟩

/-- Passes a token, which meets the latest real one. -/
def read (pass : Pass) (token : Token) : Pass :=
  let met := Token.meet pass.latestToken? token
  (pass.replace met.1).push met.2

/-- The tokens of a scope with the roles that a pass from the first to the last one gives them. -/
def through (tokens : List Token) : List Token :=
  (tokens.foldl read start).tokens

end Pass

end XQueryLexer
