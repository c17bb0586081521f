import XQueryLexer.Kind
import XQueryLexer.Tree

/-! Tokens, and what a forest of tokens says about the text that it was read from. -/

namespace XQueryLexer

/-- The bytes of a source from a first offset up to, and without, a second one. -/
structure Span where
  /-- The offset of the first byte. -/
  start : UInt32
  /-- The offset after the last byte. -/
  stop : UInt32
  deriving DecidableEq, Repr

namespace Span

/-- The empty range at the beginning, which stands for a range that is not known. -/
def null : Span :=
  ⟨0, 0⟩

/-- The range between two offsets, of which the low 32 bits are kept. -/
def ofOffsets (start stop : Nat) : Span :=
  ⟨.ofNat start, .ofNat stop⟩

end Span

/-- A classified piece of the source. -/
structure Token where
  /-- The text of the token, exactly as it stands in the source. -/
  value : String
  /-- The lexical class of the token. -/
  state : LexState
  /-- The role of the token. -/
  kind : Kind
  /-- Whether the token closes a bracket that is not open. -/
  error : Bool
  /-- Where the token stands in the source. -/
  span : Span
  deriving DecidableEq, Repr

namespace Token

/-- A token with the role that its class suggests. -/
def ofState (value : String) (state : LexState) (span : Span) : Token :=
  ⟨value, state, .ofState state, false, span⟩

/-- Whether the token counts as context for the names around it. -/
def isReal (token : Token) : Bool :=
  token.state.isReal

/-- The context in which the first real token of a scope is read, as if after a comma. -/
def scopeStart : Token :=
  ofState "," .separator .null

end Token

/-- The text of a forest, which is the text of its tokens in document order. -/
def Forest.text (forest : Forest Token) : String :=
  String.join ((Forest.items forest).map Token.value)

/-- Whether any token of a forest closes a bracket that is not open. -/
def Forest.hasError (forest : Forest Token) : Bool :=
  (Forest.items forest).any Token.error

end XQueryLexer
