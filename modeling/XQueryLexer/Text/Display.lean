import XQueryLexer.Text.CharClass

/-! Texts as they are shown: set in columns, trimmed, and written so that every character in them
can be seen. -/

namespace XQueryLexer.Text

/-- A number of equal characters. -/
def fill (count : Nat) (c : Char) : String :=
  .ofList (List.replicate count c)

/-- A text followed by spaces up to a width, never cut. -/
def padRight (width : Nat) (text : String) : String :=
  text ++ fill (width - text.length) ' '

/-- A text preceded by copies of a character up to a width, never cut. -/
def padLeft (width : Nat) (c : Char) (text : String) : String :=
  fill (width - text.length) c ++ text

/-- A text without the white space at its end. -/
def trimEnd (text : String) : String :=
  .ofList (text.toList.reverse.dropWhile isBlank).reverse

/-- Which of the characters that could stand for themselves a form of escaping replaces. -/
structure EscapeForm where
  /-- Whether apostrophes are replaced. -/
  apostrophes : Bool
  /-- Whether quotation marks are replaced. -/
  quotations : Bool
  /-- Whether combining characters are replaced everywhere, and not only at the start. -/
  everyCombining : Bool
  deriving DecidableEq, Repr

namespace EscapeForm

/-- The form inside a string in quotation marks. -/
def quotedString : EscapeForm :=
  ⟨false, true, true⟩

/-- The form inside a character in apostrophes. -/
def quotedChar : EscapeForm :=
  ⟨true, false, true⟩

/-- The form of a text that stands by itself. -/
def bare : EscapeForm :=
  ⟨true, true, false⟩

end EscapeForm

/-- The code point of a character in lower-case hexadecimal digits, between braces. -/
def escapeCode (c : Char) : List Char :=
  ['\\', 'u', '{'] ++ Nat.toDigits 16 c.toNat ++ ['}']

/-- A character as it is written in a form, at the start of the text or after it. -/
def escapeChar (form : EscapeForm) (atStart : Bool) (c : Char) : List Char :=
  if c = '\x00' then ['\\', '0']
  else if c = '\t' then ['\\', 't']
  else if c = '\r' then ['\\', 'r']
  else if c = '\n' then ['\\', 'n']
  else if c = '\\' then ['\\', '\\']
  else if c = '\'' then if form.apostrophes then ['\\', c] else [c]
  else if c = '"' then if form.quotations then ['\\', c] else [c]
  else if (atStart || form.everyCombining) && isCombining c then escapeCode c
  else if isPrintable c then [c]
  else escapeCode c

/-- A text as it is written in a form. -/
def escape (form : EscapeForm) (text : String) : String :=
  match text.toList with
  | [] => ""
  | first :: rest =>
    .ofList (escapeChar form true first ++ rest.flatMap (escapeChar form false))

/-- A string in quotation marks. -/
def quoteString (text : String) : String :=
  "\"" ++ escape .quotedString text ++ "\""

/-- A character in apostrophes. -/
def quoteChar (c : Char) : String :=
  "'" ++ .ofList (escapeChar .quotedChar true c) ++ "'"

end XQueryLexer.Text
