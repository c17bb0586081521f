import XQueryLexer.Scan
import XQueryLexer.Vocabulary

/-! How far the lexeme at the start of a text reaches, read off the text alone. -/

namespace XQueryLexer

namespace Extent

/-- The number of whitespace characters at the start of a text. -/
def ofSpace (text : List Char) : Nat :=
  (text.takeWhile isSpace).length

/-- Whether a character is a digit or a sign, which can stand behind an exponent mark. -/
def isExponentStart (c : Char) : Bool :=
  c.isDigit || c = '+' || c = '-'

/-- The number of characters at the start of a text that carry on a number. -/
def ofNumber : List Char → Nat
  | [] => 0
  | c :: rest =>
    if c.isDigit || c = '.' then ofNumber rest + 1
    -- An exponent mark belongs to the number together with what stands behind it.
    else match rest with
      | [] => 0
      | next :: more =>
        if (c = 'e' || c = 'E') && isExponentStart next then ofNumber more + 2 else 0

/-- A number takes in every digit and every point. -/
theorem ofNumber_figure {c : Char} {rest : List Char} (figure : c.isDigit = true ∨ c = '.') :
    ofNumber (c :: rest) = ofNumber rest + 1 := by
  -- The text behind the character only matters where that is no figure.
  cases rest <;> rw [ofNumber.eq_def] <;> exact if_pos (by simpa using figure)

/-- A number takes in an exponent mark together with the digit or sign behind it. -/
theorem ofNumber_exponent {c next : Char} {more : List Char}
    (figure : ¬(c.isDigit = true ∨ c = '.')) (mark : c = 'e' ∨ c = 'E')
    (start : isExponentStart next = true) :
    ofNumber (c :: next :: more) = ofNumber more + 2 := by
  -- The test for a figure fails, and the one for an exponent does not.
  rw [ofNumber, if_neg (by simpa using figure), if_pos (by simpa [start] using mark)]

/-- A number takes in no other character that is neither a digit nor a point. -/
theorem ofNumber_stop {c : Char} {rest : List Char} (figure : ¬(c.isDigit = true ∨ c = '.'))
    (exponent : (c = 'e' ∨ c = 'E') → rest.head?.any isExponentStart = false) :
    ofNumber (c :: rest) = 0 := by
  -- Both tests fail, or there is nothing behind the character for the second one.
  cases rest with
  | nil => rw [ofNumber, if_neg (by simpa using figure)]
  | cons next more =>
    rw [ofNumber, if_neg (by simpa using figure), if_neg (by simpa using exponent)]

/-- Whether a character is whitespace, a bracket, a quotation mark or a separator. -/
def isDelimiter (c : Char) : Bool :=
  isSpace c || (Bracket.ofOpener? c).isSome || (Bracket.ofCloser? c).isSome ||
    (Quote.ofMark? c).isSome || separators.contains c

/-- Whether a character, seen with the one after it, carries on a word. -/
def continuesWord (c : Char) (ahead : Option Char) : Bool :=
  c = '-' || c = '.' || (c = ':' && ahead ≠ some ':') ||
    !(isDelimiter c || (c = 'Q' && ahead = some '{'))

/-- The number of characters at the start of a text that carry on a word. -/
def ofWord : List Char → Nat
  | [] => 0
  | c :: rest => if continuesWord c rest.head? then ofWord rest + 1 else 0

/-- The number of characters up to the mark that ends a string literal, if the text has it. -/
def ofString? (mark : Char) : List Char → Option Nat
  | [] => none
  | c :: rest =>
    if c ≠ mark then (ofString? mark rest).map (· + 1)
    -- Two marks in a row stand for one mark inside the literal.
    else match rest with
      | [] => some 1
      | next :: more => if next = mark then (ofString? mark more).map (· + 2) else some 1

/-- A string literal takes in every character that is not its mark. -/
theorem ofString?_inner {mark c : Char} {rest : List Char} (inner : c ≠ mark) :
    ofString? mark (c :: rest) = (ofString? mark rest).map (· + 1) := by
  -- What is behind the character only matters where that is the mark.
  cases rest <;> rw [ofString?.eq_def] <;> exact if_pos inner

/-- A string literal takes in two of its marks in a row. -/
theorem ofString?_doubled {mark : Char} {more : List Char} :
    ofString? mark (mark :: mark :: more) = (ofString? mark more).map (· + 2) := by
  -- The first mark is looked at together with the second.
  rw [ofString?, if_neg (by simp), if_pos rfl]

/-- A string literal ends with a mark that no other one follows. -/
theorem ofString?_mark {mark : Char} {rest : List Char} (single : rest.head? ≠ some mark) :
    ofString? mark (mark :: rest) = some 1 := by
  -- The literal ends with the text, or with a mark in front of another character.
  cases rest with
  | nil => rw [ofString?, if_neg (by simp)]
  | cons next more => rw [ofString?, if_neg (by simp), if_neg (by simpa using single)]

/-- The number of characters up to the brace that ends a URI literal, if the text has it. -/
def ofUriLiteral? : List Char → Option Nat
  | [] => none
  | c :: rest => if c = '\x7d' then some 1 else (ofUriLiteral? rest).map (· + 1)

/-- The number of characters up to the bracket that ends the outermost of some comments. -/
def ofComment? (nested : Nat) : List Char → Option Nat
  | [] => none
  | c :: rest =>
    if c = '(' && rest.head? = some ':' then (ofComment? (nested + 1) rest).map (· + 1)
    else if c = ':' && rest.head? = some ')' then
      if nested = 1 then some 2 else (ofComment? (nested - 1) rest).map (· + 1)
    else (ofComment? nested rest).map (· + 1)

end Extent

namespace LexState

/-- The class of the lexeme that starts with a character, seen with the one after it. -/
def starting (c : Char) (ahead : Option Char) : LexState :=
  if isSpace c then whitespace
  else if c = '(' && ahead = some ':' then comment
  else if c = 'Q' && ahead = some '{' then uriLiteral
  else match Bracket.ofOpener? c, Bracket.ofCloser? c, Quote.ofMark? c with
  | some bracket, _, _ => if ahead = some bracket.closer then pair else opening bracket
  | none, some bracket, _ => closing bracket
  | none, none, some quote => quoted quote
  | none, none, none =>
    if c = '+' || c = '-' then separator
    else if ahead.any fun next => pairedSeparators.contains (c, next) then pair
    else if c.isDigit || (c = '.' && ahead.any Char.isDigit) then number
    else if separators.contains c then separator
    else if c = '$' then word .dollar
    else if c = '@' then word .atSign
    else word .bare

/-- How many characters of the text after its first one a lexeme of a class takes in, where nothing
is said if only the end of the text ends the lexeme. -/
def extent? (state : LexState) (text : List Char) : Option Nat :=
  match state with
  | whitespace => some (Extent.ofSpace text)
  | number => some (Extent.ofNumber text)
  | word _ => some (Extent.ofWord text)
  | quoted quote => Extent.ofString? quote.mark text
  | uriLiteral => Extent.ofUriLiteral? text
  | comment => Extent.ofComment? 1 text
  | pair => some 1
  | _ => some 0

end LexState

/-- A piece of text with its lexical class, wherever it stands. -/
structure Piece where
  /-- The text. -/
  value : String
  /-- The lexical class. -/
  state : LexState
  deriving DecidableEq, Repr

/-- The pieces of a text, each of which is decided by the text from its start on alone. -/
def Piece.ofText : List Char → List Piece
  | [] => []
  | c :: rest =>
    let state := LexState.starting c rest.head?
    let more := (state.extent? rest).getD rest.length
    ⟨.ofList (c :: rest.take more), state⟩ :: Piece.ofText (rest.drop more)
termination_by text => text.length
decreasing_by simp only [List.length_drop, List.length_cons]; omega

end XQueryLexer
