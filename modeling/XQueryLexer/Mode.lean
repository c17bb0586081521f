import XQueryLexer.LexState
import XQueryLexer.Vocabulary

/-! The character automaton: each character, seen with the one after it, leads to the next mode. -/

namespace XQueryLexer

/-- What the scanner remembers between two characters. -/
structure Mode where
  /-- The lexical state after the characters read so far. -/
  state : LexState
  /-- The number of comments that are open around the next character. It has no upper end here, and
  is what a count of 32 bits comes to as long as fewer than 2^32 comments are open. -/
  depth : Nat
  deriving DecidableEq, Repr

/-- Whether the character ahead is a decimal digit. -/
def digitAhead (ahead : Option Char) : Bool :=
  ahead.any Char.isDigit

/-- Whether a character and the one ahead of it are a two-character operator. -/
def pairAhead (c : Char) (ahead : Option Char) : Bool :=
  ahead.any fun next => isPairedSeparator (.ofList [c, next])

/-- An operator is ahead exactly if the character and the one ahead of it are listed. -/
theorem pairAhead_eq (c : Char) (ahead : Option Char) :
    pairAhead c ahead = ahead.any fun next => pairedSeparators.contains (c, next) := by
  -- Only the word that is looked up has to be taken apart.
  simp only [pairAhead, isPairedSeparator_ofList]

namespace LexState

/-- The state that a character outside every delimiter leads to from a held state. -/
def reading (held : LexState) (c : Char) (ahead : Option Char) : LexState :=
  if pairAhead c ahead then pair
  else if c = '.' && digitAhead ahead then number
  else if separators.contains c then separator
  -- Inside a word every remaining character belongs to the word.
  else if held.isWord then held
  else if c.isDigit then number
  else if c = '$' then word .dollar
  else if c = '@' then word .atSign
  else word .bare

/-- The state that a character leads to where a lexeme may end. -/
def entering (held : LexState) (c : Char) (ahead : Option Char) : LexState :=
  if c = 'Q' && ahead = some '{' then uriLiteral
  else match Bracket.ofOpener? c with
  | some bracket =>
    if c = '(' && ahead = some ':' then comment
    else if ahead = some bracket.closer then pair
    else opening bracket
  | none => match Bracket.ofCloser? c with
  | some bracket => closing bracket
  | none => match Quote.ofMark? c with
  | some quote => quoted quote
  | none =>
    if c = '+' || c = '-' then separator
    else if isSpace c then whitespace
    else held.reading c ahead

end LexState

namespace Mode

/-- The mode before the first character. -/
def initial : Mode :=
  ⟨.initial, 0⟩

/-- The mode that a character leads to where a lexeme may end, counting a comment it opens. -/
def enter (mode : Mode) (c : Char) (ahead : Option Char) : Mode :=
  let state := mode.state.entering c ahead
  ⟨state, if state = .comment then mode.depth + 1 else mode.depth⟩

/-- The mode that a character leads to, whatever the mode before it. -/
def next (mode : Mode) (c : Char) (ahead : Option Char) : Mode :=
  match mode.state with
  | .number =>
    if c.isDigit || c = '.' then mode
    else if (c = 'e' || c = 'E') && (ahead = some '+' || ahead = some '-' || digitAhead ahead) then
      { mode with state := .exponent }
    else mode.enter c ahead
  -- The character after the exponent mark always belongs to the number.
  | .exponent => { mode with state := .number }
  | .word _ =>
    if c = '-' || c = '.' || (c = ':' && ahead ≠ some ':') then mode
    else mode.enter c ahead
  | .pair => { mode with state := .pairEnd }
  | .uriLiteral => if c = '}' then { mode with state := .uriLiteralEnd } else mode
  | .quoted quote =>
    if c ≠ quote.mark then mode
    else if ahead = some quote.mark then { mode with state := .quoteEscape quote }
    else { mode with state := .quoteEnd quote }
  | .quoteEscape quote => { mode with state := .quoted quote }
  | .comment =>
    if c = ':' && ahead = some ')' then
      ⟨if mode.depth ≤ 1 then .commentEnd else .comment, mode.depth - 1⟩
    else if c = '(' && ahead = some ':' then { mode with depth := mode.depth + 1 }
    else mode
  | _ => mode.enter c ahead

/-- The modes after each character of a text. -/
def walk (mode : Mode) : List Char → List Mode
  | [] => []
  | c :: rest =>
    let reached := mode.next c rest.head?
    reached :: reached.walk rest

end Mode

end XQueryLexer
