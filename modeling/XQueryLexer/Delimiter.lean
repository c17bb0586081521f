/-! The brackets that nest in an expression and the quotation marks that enclose string literals. -/

namespace XQueryLexer

/-- A kind of bracket. -/
inductive Bracket where
  | round
  | square
  | curly
  deriving DecidableEq, Repr

namespace Bracket

/-- The character that opens a bracket. -/
def opener : Bracket → Char
  | round => '('
  | square => '['
  | curly => '{'

/-- The character that closes a bracket. -/
def closer : Bracket → Char
  | round => ')'
  | square => ']'
  | curly => '}'

/-- The bracket that a character opens, if it opens one. -/
def ofOpener? (c : Char) : Option Bracket :=
  if c = '(' then some round
  else if c = '[' then some square
  else if c = '{' then some curly
  else none

/-- The bracket that a character closes, if it closes one. -/
def ofCloser? (c : Char) : Option Bracket :=
  if c = ')' then some round
  else if c = ']' then some square
  else if c = '}' then some curly
  else none

/-- A character opens exactly the bracket that it is the opener of. -/
theorem ofOpener?_eq_some_iff {c : Char} {bracket : Bracket} :
    ofOpener? c = some bracket ↔ c = bracket.opener := by
  -- The three openers differ, so each test can succeed for one bracket only.
  cases bracket <;> grind [ofOpener?, opener]

/-- A character closes exactly the bracket that it is the closer of. -/
theorem ofCloser?_eq_some_iff {c : Char} {bracket : Bracket} :
    ofCloser? c = some bracket ↔ c = bracket.closer := by
  -- The three closers differ, so each test can succeed for one bracket only.
  cases bracket <;> grind [ofCloser?, closer]

end Bracket

/-- A quotation mark. -/
inductive Quote where
  | single
  | double
  deriving DecidableEq, Repr

namespace Quote

/-- The character of a quotation mark. -/
def mark : Quote → Char
  | single => '\''
  | double => '"'

/-- The quotation mark that a character is, if it is one. -/
def ofMark? (c : Char) : Option Quote :=
  if c = '\'' then some single
  else if c = '"' then some double
  else none

/-- A character is exactly the quotation mark that it is the character of. -/
theorem ofMark?_eq_some_iff {c : Char} {quote : Quote} :
    ofMark? c = some quote ↔ c = quote.mark := by
  -- The two marks differ, so each test can succeed for one of them only.
  cases quote <;> grind [ofMark?, mark]

end Quote

end XQueryLexer
