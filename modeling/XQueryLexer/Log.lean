import XQueryLexer.Fault
import XQueryLexer.Kind

/-! The records that describe how a source is read. -/

namespace XQueryLexer

/-- How much a record matters, or how much of a log is shown. -/
inductive Level where
  | off
  | error
  | warn
  | info
  | debug
  | trace
  deriving DecidableEq, Repr

namespace Level

/-- Every level, from the least to the most that is shown. -/
def all : List Level :=
  [off, error, warn, info, debug, trace]

/-- The position of a level among all levels. -/
def rank : Level → Nat
  | off => 0
  | error => 1
  | warn => 2
  | info => 3
  | debug => 4
  | trace => 5

/-- The name of a level. -/
def name : Level → String
  | off => "OFF"
  | error => "ERROR"
  | warn => "WARN"
  | info => "INFO"
  | debug => "DEBUG"
  | trace => "TRACE"

end Level

/-- One thing that happens while a source is read. -/
inductive Record where
  /-- A source is about to be read. -/
  | analysing (source : String)
  /-- A character changes the state of the scanner. -/
  | turn (c : Char) (ahead : Option Char) (old new : LexState)
  /-- A token is found inside a number of open brackets. -/
  | token (value : String) (state : LexState) (kind : Kind) (depth : Nat)
  /-- An earlier token takes another role. -/
  | relabelled (value : String) (old new : Kind)
  /-- Something is wrong with the source. -/
  | diagnosed (diagnostic : Diagnostic)
  deriving DecidableEq, Repr

namespace Record

/-- How much a record matters. -/
def level : Record → Level
  | analysing _ | token _ _ _ _ | relabelled _ _ _ => .debug
  | turn _ _ _ _ => .trace
  | diagnosed _ => .warn

/-- The text of a character that may be missing. -/
def aheadText : Option Char → String
  | none => "None"
  | some c => "Some(" ++ Text.quoteChar c ++ ")"

/-- The text of a record. -/
def message : Record → String
  | analysing source => "analysing " ++ Text.quoteString source
  | turn c ahead old new =>
    Text.quoteChar c ++ " " ++ aheadText ahead ++ " -> " ++ old.name ++ " => " ++ new.name
  | token value state kind depth =>
    "token " ++ Text.quoteString value ++ " [" ++ state.name ++ "] " ++ kind.name ++
      " depth " ++ toString depth
  | relabelled value old new =>
    "relabel " ++ Text.quoteString value ++ ": " ++ old.name ++ " -> " ++ new.name
  | diagnosed diagnostic =>
    diagnostic.fault.message ++ " at offset " ++ toString diagnostic.position.toNat

/-- Whether a record is shown in a log of a given level. -/
def isShown (limit : Level) (record : Record) : Bool :=
  record.level.rank ≤ limit.rank

end Record

end XQueryLexer
