import XQueryLexer.LexState

/-! The roles that lexemes play in an expression. -/

namespace XQueryLexer

/-- The role of a token. -/
inductive Kind where
  | operator
  | plainName
  | varName
  | attrName
  | number
  | string
  | uriLiteral
  | nodeType
  | simpleType
  | axis
  | declaration
  | function
  | whitespace
  | unset
  deriving DecidableEq, Repr

namespace Kind

/-- Every role, in the order in which they are documented. -/
def all : List Kind :=
  [operator, plainName, varName, attrName, number, string, uriLiteral, nodeType, simpleType, axis,
    declaration, function, whitespace, unset]

/-- The name under which a role is written in every dump. -/
def name : Kind → String
  | operator => "Operator"
  | plainName => "Name"
  | varName => "Variable"
  | attrName => "Attribute"
  | number => "Number"
  | string => "String"
  | uriLiteral => "UriLiteral"
  | nodeType => "NodeType"
  | simpleType => "SimpleType"
  | axis => "Axis"
  | declaration => "Declaration"
  | function => "Function"
  | whitespace => "Whitespace"
  | unset => "Unset"

/-- The role with a given name. -/
def ofName? (text : String) : Option Kind :=
  all.find? fun kind => kind.name = text

/-- Every role is found again by its name. -/
theorem ofName?_name (kind : Kind) : ofName? kind.name = some kind := by
  -- No two roles share a name, so the search stops at the role itself.
  cases kind <;> decide

/-- The role that the class of a lexeme suggests before its context is known. -/
def ofState : LexState → Kind
  | .whitespace => whitespace
  | .word .bare => plainName
  | .word .dollar => varName
  | .word .atSign => attrName
  | .pair | .separator | .opening _ | .closing _ => operator
  | .number => number
  | .quoted _ => string
  | .uriLiteral => uriLiteral
  | _ => unset

/-- Whether a later token may still settle what the name is. -/
def isUnresolvedName : Kind → Bool
  | plainName | simpleType => true
  | _ => false

end Kind

end XQueryLexer
