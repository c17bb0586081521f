import XQueryLexer.Delimiter

/-! The lexical states that the scanner passes through, which also classify the lexemes it finds. -/

namespace XQueryLexer

/-- The mark in front of a word. -/
inductive Sigil where
  | bare
  | dollar
  | atSign
  deriving DecidableEq, Repr

/-- The state of the scanner after a character, and the class of the lexeme it was reading. -/
inductive LexState where
  | initial
  | opening (bracket : Bracket)
  | closing (bracket : Bracket)
  | comment
  | commentEnd
  | quoted (quote : Quote)
  | quoteEnd (quote : Quote)
  | quoteEscape (quote : Quote)
  | uriLiteral
  | uriLiteralEnd
  | whitespace
  | number
  | exponent
  | word (sigil : Sigil)
  | separator
  | pair
  | pairEnd
  deriving DecidableEq, Repr

namespace LexState

/-- Every lexical state, in the order in which they are documented. -/
def all : List LexState :=
  [initial, opening .round, closing .round, opening .curly, closing .curly, opening .square,
    closing .square, comment, commentEnd, quoted .single, quoteEnd .single, quoteEscape .single,
    quoted .double, quoteEnd .double, quoteEscape .double, uriLiteral, uriLiteralEnd, whitespace,
    number, exponent, word .dollar, word .atSign, word .bare, separator, pair, pairEnd]

/-- The name under which a lexical state is written in every dump. -/
def name : LexState → String
  | initial => "Init"
  | opening .round => "OpenParen"
  | opening .curly => "OpenCurly"
  | opening .square => "OpenBracket"
  | closing .round => "CloseParen"
  | closing .curly => "CloseCurly"
  | closing .square => "CloseBracket"
  | comment => "Comment"
  | commentEnd => "CommentEnd"
  | quoted .single => "SingleQuote"
  | quoted .double => "DoubleQuote"
  | quoteEnd .single => "SingleQuoteEnd"
  | quoteEnd .double => "DoubleQuoteEnd"
  | quoteEscape .single => "EscapedSingleQuote"
  | quoteEscape .double => "EscapedDoubleQuote"
  | uriLiteral => "UriLiteral"
  | uriLiteralEnd => "UriLiteralEnd"
  | whitespace => "Whitespace"
  | number => "Number"
  | exponent => "Exponent"
  | word .dollar => "Variable"
  | word .atSign => "Attribute"
  | word .bare => "Name"
  | separator => "Separator"
  | pair => "DoubleSeparator"
  | pairEnd => "DoubleSeparatorEnd"

/-- The lexical state with a given name. -/
def ofName? (text : String) : Option LexState :=
  all.find? fun state => state.name = text

/-- Every lexical state is found again by its name. -/
theorem ofName?_name (state : LexState) : ofName? state.name = some state := by
  -- No two states share a name, so the search stops at the state itself.
  cases state with
  | opening bracket => cases bracket <;> decide
  | closing bracket => cases bracket <;> decide
  | quoted quote => cases quote <;> decide
  | quoteEnd quote => cases quote <;> decide
  | quoteEscape quote => cases quote <;> decide
  | word sigil => cases sigil <;> decide
  | _ => decide

/-- Whether the same state again begins a lexeme of its own. -/
def splitsOnRepeat : LexState → Bool
  | opening _ | closing _ | separator => true
  | _ => false

/-- Whether the state is the first of two quotation marks inside a string literal. -/
def isEscape : LexState → Bool
  | quoteEscape _ => true
  | _ => false

/-- Whether the state is inside a word, which ordinary characters extend. -/
def isWord : LexState → Bool
  | word _ => true
  | _ => false

/-- The state that closes an opened bracket. -/
def closedBy? : LexState → Option LexState
  | opening bracket => some (closing bracket)
  | _ => none

/-- The character that closes an opened bracket. -/
def closingChar? : LexState → Option Char
  | opening bracket => some bracket.closer
  | _ => none

/-- Whether a lexeme of this class counts as context for the names around it. -/
def isReal : LexState → Bool
  | whitespace | comment => false
  | _ => true

end LexState

end XQueryLexer
