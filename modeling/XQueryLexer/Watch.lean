import XQueryLexer.Fault
import XQueryLexer.LexState

/-! A reader of delimiters alone, which knows nothing of names, numbers and operators. -/

namespace XQueryLexer

/-- The parts of a source in which delimiters mean different things. -/
inductive Region where
  | code
  | quoted (quote : Quote)
  | comment (nested : Nat)
  | uriLiteral
  deriving DecidableEq, Repr

/-- The fault of a source that ends inside a part, if the part has to be ended. -/
def Region.fault? : Region → Option Fault
  | code => none
  | quoted quote => some (.unterminatedString quote.mark)
  | comment _ => some .unterminatedComment
  | uriLiteral => some .unterminatedUriLiteral

/-- What the reader of delimiters remembers between two characters. -/
structure Watch where
  /-- The part of the source that the next character stands in. -/
  region : Region
  /-- The open brackets with their byte offsets, innermost first. -/
  stack : List (Bracket × Nat)
  /-- The faults found so far with their byte offsets. -/
  found : List (Fault × Nat)
  deriving DecidableEq, Repr

namespace Watch

/-- The reader before the first character. -/
def initial : Watch :=
  ⟨.code, [], []⟩

/-- Enters a part of the source. -/
def enter (watch : Watch) (region : Region) : Watch :=
  { watch with region }

/-- Notes a fault at an offset. -/
def report (watch : Watch) (fault : Fault) (offset : Nat) : Watch :=
  { watch with found := watch.found ++ [(fault, offset)] }

/-- Takes in a closing bracket, which a bracket of another kind or none may be open before. -/
def close (watch : Watch) (bracket : Bracket) (offset : Nat) : Watch :=
  match watch.stack with
  | [] => watch.report (.unmatchedCloser (.singleton bracket.closer)) offset
  | (top, _) :: below =>
    if top = bracket then { watch with stack := below }
    else watch.report (.mismatchedCloser top.closer bracket.closer) offset

/-- Reads a character of code. The flag tells whether the character ahead is taken with it. -/
def readCode (watch : Watch) (offset : Nat) (c : Char) (ahead : Option Char) : Watch × Bool :=
  if c = 'Q' && ahead = some '{' then (watch.enter .uriLiteral, false)
  else if c = '(' && ahead = some ':' then (watch.enter (.comment 1), false)
  else match Bracket.ofOpener? c, Bracket.ofCloser? c, Quote.ofMark? c with
  | some bracket, _, _ =>
    if ahead = some bracket.closer then (watch, true)
    else ({ watch with stack := (bracket, offset) :: watch.stack }, false)
  | none, some bracket, _ => (watch.close bracket offset, false)
  | none, none, some quote => (watch.enter (.quoted quote), false)
  | none, none, none => (watch, false)

/-- Reads a character. The flag tells whether the character ahead is taken with it. -/
def read (watch : Watch) (offset : Nat) (c : Char) (ahead : Option Char) : Watch × Bool :=
  match watch.region with
  | .code => watch.readCode offset c ahead
  | .quoted quote =>
    if c ≠ quote.mark then (watch, false)
    else if ahead = some quote.mark then (watch, true)
    else (watch.enter .code, false)
  | .uriLiteral => if c = '\x7d' then (watch.enter .code, false) else (watch, false)
  | .comment nested =>
    if c = '(' && ahead = some ':' then (watch.enter (.comment (nested + 1)), false)
    else if c = ':' && ahead = some ')' then
      if nested = 1 then (watch.enter .code, true) else (watch.enter (.comment (nested - 1)), false)
    else (watch, false)

/-- The fault of an open bracket that is never closed. -/
def unclosed (entry : Bracket × Nat) : Fault × Nat :=
  (.unclosedBracket (.singleton entry.1.opener), entry.2)

/-- The faults of a source that ends at an offset. -/
def finish (watch : Watch) (offset : Nat) : List (Fault × Nat) :=
  watch.found ++ watch.region.fault?.toList.map (·, offset) ++ watch.stack.map unclosed

/-- The faults of a source of which a text is left to read from an offset on. -/
def run (watch : Watch) (offset : Nat) : List Char → List (Fault × Nat)
  | [] => watch.finish offset
  | c :: rest =>
    let (after, both) := watch.read offset c rest.head?
    if both then
      match rest with
      | [] => after.finish (offset + c.utf8Size)
      | next :: more => after.run (offset + c.utf8Size + next.utf8Size) more
    else after.run (offset + c.utf8Size) rest

end Watch

end XQueryLexer
