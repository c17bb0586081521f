import XQueryLexer.Fault
import XQueryLexer.Mode

/-! The scanner, which cuts the source into lexemes while the automaton moves over it, and the
events by which it hands them on. -/

namespace XQueryLexer

/-- A piece of the source with its lexical class. -/
structure Lexeme where
  /-- The text of the lexeme. -/
  value : String
  /-- The lexical class. -/
  state : LexState
  /-- The byte offset at which the lexeme starts. -/
  start : Nat
  /-- The byte offset at which the lexeme ends. -/
  stop : Nat
  deriving DecidableEq, Repr

/-- What the scanner has to say about a source, in the order in which it finds it out. -/
inductive Event where
  | turn (c : Char) (ahead : Option Char) (old new : LexState)
  | lexeme (found : Lexeme)
  | unterminated (diagnostic : Diagnostic)
  deriving DecidableEq, Repr

/-- What becomes of a character once the state that it leads to is known. -/
inductive Treatment where
  /-- The character joins the pending lexeme. -/
  | extend
  /-- The character ends the pending lexeme and begins another. -/
  | restart
  /-- The character ends the pending lexeme and is a lexeme by itself. -/
  | alone
  /-- The character ends the pending lexeme and is a lexeme together with the one after it. -/
  | withNext
  /-- The character is the last one of the pending lexeme. -/
  | finish
  /-- The character and the bracket after it are the end of the pending comment. -/
  | finishComment
  /-- The character has been taken together with the one before it. -/
  | skip
  deriving DecidableEq, Repr

/-- The treatment of a character that leads from one state to another. -/
def LexState.treatment (old new : LexState) : Treatment :=
  if (new = old && !old.splitsOnRepeat) || (old = .exponent && new = .number) then .extend
  else match new with
  | .number | .word _ => .restart
  | .initial | .exponent | .quoteEscape _ => .extend
  | .pair => .withNext
  | .pairEnd => .skip
  | .separator | .opening _ => .alone
  -- A bracket after the colon that ends a comment belongs to the comment.
  | .closing _ => if old = .commentEnd then .skip else .alone
  | .commentEnd => .finishComment
  | .quoteEnd _ | .uriLiteralEnd => .finish
  | .quoted _ | .comment | .whitespace | .uriLiteral => if old.isEscape then .extend else .restart

/-- The fault of a source that ends in a state, if that state is inside a literal or a comment. -/
def LexState.unterminated? : LexState → Option Fault
  | .quoted quote | .quoteEscape quote => some (.unterminatedString quote.mark)
  | .comment => some .unterminatedComment
  | .uriLiteral => some .unterminatedUriLiteral
  | _ => none

/-- The scanner between two characters. -/
structure Scan where
  /-- The mode of the automaton. -/
  mode : Mode
  /-- The characters of the lexeme that has not ended yet. -/
  pending : String
  /-- The byte offset at which the pending lexeme starts. -/
  start : Nat
  /-- The byte offset of the next character. -/
  offset : Nat
  /-- What has been found so far. -/
  events : Array Event
  deriving DecidableEq, Repr

namespace Scan

/-- The scanner before the first character. -/
def initial : Scan :=
  ⟨.initial, "", 0, 0, #[]⟩

/-- Puts an event behind those found so far. -/
def record (scan : Scan) (event : Event) : Scan :=
  { scan with events := scan.events.push event }

/-- Adds a character to the pending lexeme, which starts with it if there was none. -/
def extend (scan : Scan) (c : Char) : Scan :=
  let start := if scan.pending.isEmpty then scan.offset else scan.start
  { scan with pending := scan.pending.push c, start }

/-- Ends the pending lexeme, if there is one, at an offset. -/
def flush (scan : Scan) (state : LexState) (stop : Nat) : Scan :=
  if scan.pending.isEmpty then scan
  else { scan with pending := "" }.record (.lexeme ⟨scan.pending, state, scan.start, stop⟩)

/-- Finds a whole lexeme that starts at the current character. -/
def emit (scan : Scan) (value : String) (state : LexState) : Scan :=
  scan.record (.lexeme ⟨value, state, scan.offset, scan.offset + value.utf8ByteSize⟩)

/-- Carries out the treatment of a character. -/
def treat (scan : Scan) (treatment : Treatment) (c : Char) (ahead : Option Char)
    (new : LexState) : Scan :=
  let old := scan.mode.state
  match treatment with
  | .extend => scan.extend c
  | .restart => (scan.flush old scan.offset).extend c
  | .alone => (scan.flush old scan.offset).emit (.singleton c) new
  | .withNext => (scan.flush old scan.offset).emit (.ofList (c :: ahead.toList)) new
  | .finish => (scan.extend c).flush old (scan.offset + c.utf8Size)
  | .finishComment => ((scan.extend c).extend ')').flush old (scan.offset + 2)
  | .skip => scan

/-- Reads one character, seeing the one after it. -/
def read (scan : Scan) (c : Char) (ahead : Option Char) : Scan :=
  let old := scan.mode.state
  let reached := scan.mode.next c ahead
  let noted := if reached.state = old then scan else scan.record (.turn c ahead old reached.state)
  { noted.treat (old.treatment reached.state) c ahead reached.state with
    mode := reached
    offset := scan.offset + c.utf8Size }

/-- Reads a text to its end. -/
def run (scan : Scan) : List Char → Scan
  | [] => scan
  | c :: rest => (scan.read c rest.head?).run rest

/-- Ends the source, with the lexeme that is still pending and what is wrong with it. -/
def finish (scan : Scan) : Scan :=
  let ended := scan.flush scan.mode.state scan.offset
  match scan.mode.state.unterminated? with
  | some fault => ended.record (.unterminated (.ofOffset fault scan.offset))
  | none => ended

end Scan

/-- The events of a whole source. -/
def Event.ofSource (source : String) : List Event :=
  (Scan.initial.run source.toList).finish.events.toList

end XQueryLexer
