import XQueryLexer.Text.Display

/-! What can be wrong with an expression, and how it is told to the reader. -/

namespace XQueryLexer

/-- Something wrong with the delimiters of an expression. -/
inductive Fault where
  | unmatchedCloser (token : String)
  | mismatchedCloser (expected found : Char)
  | unclosedBracket (token : String)
  | unterminatedString (quote : Char)
  | unterminatedComment
  | unterminatedUriLiteral
  deriving DecidableEq, Repr

/-- Advice on how to mend a fault. -/
inductive Tip where
  | none
  | suggestion (text : String)
  deriving DecidableEq, Repr

/-- The text of the advice, which is empty where there is none. -/
def Tip.text : Tip → String
  | none => ""
  | suggestion text => text

namespace Fault

/-- The name of the fault. -/
def name : Fault → String
  | unmatchedCloser _ => "UnmatchedClosingBracket"
  | mismatchedCloser _ _ => "MismatchedClosingBracket"
  | unclosedBracket _ => "UnclosedBracket"
  | unterminatedString _ => "UnterminatedString"
  | unterminatedComment => "UnterminatedComment"
  | unterminatedUriLiteral => "UnterminatedUriLiteral"

/-- The sentence that describes the fault. -/
def message : Fault → String
  | unmatchedCloser token => "unmatched closing bracket: " ++ Text.quoteString token
  | mismatchedCloser expected found =>
    "mismatched closing bracket: expected " ++ Text.quoteChar expected ++
      ", found " ++ Text.quoteChar found
  | unclosedBracket token => "unclosed bracket: " ++ Text.quoteString token
  | unterminatedString _ => "unterminated string literal"
  | unterminatedComment => "unterminated comment"
  | unterminatedUriLiteral => "unterminated braced URI literal"

/-- The advice that goes with the fault. -/
def tip : Fault → Tip
  | unmatchedCloser token => .suggestion ("`" ++ token ++ "` has no matching opening bracket")
  | mismatchedCloser expected found =>
    .suggestion ("Expected `" ++ expected.toString ++ "`, found `" ++ found.toString ++ "`")
  | unclosedBracket token => .suggestion ("`" ++ token ++ "` is never closed")
  | unterminatedString quote =>
    .suggestion ("Add a closing " ++ quote.toString ++ " to end the string")
  | unterminatedComment => .suggestion "Add `:)` to end the comment"
  | unterminatedUriLiteral => .suggestion "Add `\x7d` to end the braced URI literal"

end Fault

/-- A fault at a byte position of the source. -/
structure Diagnostic where
  /-- What is wrong. -/
  fault : Fault
  /-- The byte offset at which it is wrong. -/
  position : UInt32
  deriving DecidableEq, Repr

namespace Diagnostic

/-- A fault at a byte offset, of which the low 32 bits are kept. -/
def ofOffset (fault : Fault) (offset : Nat) : Diagnostic :=
  ⟨fault, .ofNat offset⟩

/-- The one-line text of a diagnostic. -/
def message (diagnostic : Diagnostic) : String :=
  diagnostic.fault.message ++ " at offset " ++ toString diagnostic.position.toNat

end Diagnostic

end XQueryLexer
