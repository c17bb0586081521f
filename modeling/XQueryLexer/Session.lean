import XQueryLexer.Draft

/-! A lexer that is called again and again, where each call starts with what the one before it has
left behind. -/

namespace XQueryLexer

/-- What the events so far have come to. -/
structure Harvest where
  /-- The forest with the places at which it grows. -/
  draft : Draft
  /-- The diagnostics collected so far. -/
  diagnostics : List Diagnostic

/-- What is wrong with an event where it is taken in, if anything is. -/
def Draft.fault? (draft : Draft) : Event → Option Diagnostic
  | .turn _ _ _ _ => none
  | .unterminated diagnostic => some diagnostic
  | .lexeme found =>
    match found.state with
    | .closing bracket =>
      let position := (Span.ofOffsets found.start found.stop).start
      match draft.openings.getLast? with
      | none => some ⟨.unmatchedCloser found.value, position⟩
      | some opening =>
        if opening.state.closedBy? = some (.closing bracket) then none
        else
          let expected := opening.state.closingChar?.getD bracket.closer
          some ⟨.mismatchedCloser expected bracket.closer, position⟩
    | _ => none

namespace Harvest

/-- The harvest before the first event. -/
def empty : Harvest :=
  ⟨.empty, []⟩

/-- Collects a diagnostic, if diagnostics are to be collected. -/
def diagnose (options : Options) (harvest : Harvest) (diagnostic : Diagnostic) : Harvest :=
  if options.collectDiagnostics then
    { harvest with diagnostics := harvest.diagnostics ++ [diagnostic] }
  else harvest

/-- Takes in one event of the scanner, and first of all what is wrong with it. -/
def take? (options : Options) (harvest : Harvest) (event : Event) : Option Harvest := do
  let reported := (harvest.draft.fault? event).elim harvest (harvest.diagnose options)
  let draft ← reported.draft.absorb? event
  return { reported with draft }

/-- Reports every bracket that is still open, innermost first, and forgets them. -/
def drain (options : Options) (harvest : Harvest) : Harvest :=
  let reported := harvest.draft.openings.reverse.foldl
    (fun reported opening => reported.diagnose options
      ⟨.unclosedBracket (.singleton opening.char), opening.position⟩) harvest
  { reported with draft := { reported.draft with openings := [] } }

/-- The harvest that is left once the forest and the diagnostics have been handed over. -/
def handOver (harvest : Harvest) : Harvest :=
  ⟨{ harvest.draft with forest := [] }, []⟩

end Harvest

/-- A lexer between two calls, or between two characters of one. -/
structure Lexer where
  /-- What has been chosen when the lexer was made. -/
  options : Options
  /-- The mode of the automaton. -/
  mode : Mode
  /-- The characters of the lexeme that has not ended yet. -/
  pending : String
  /-- The byte offset at which the pending lexeme starts. -/
  start : Nat
  /-- What has been found so far. -/
  harvest : Harvest

namespace Lexer

/-- A lexer that has not been called yet. -/
def withOptions (options : Options) : Lexer :=
  ⟨options, .initial, "", 0, .empty⟩

/-- A lexer with the options that are chosen where nothing is said. -/
def new : Lexer :=
  withOptions {}

/-- Forgets everything but the options. -/
def reset (lexer : Lexer) : Lexer :=
  withOptions lexer.options

/-- The scanner of a lexer at a byte offset, which has found nothing yet that is not taken in. -/
def scanAt (lexer : Lexer) (offset : Nat) : Scan :=
  ⟨lexer.mode, lexer.pending, lexer.start, offset, #[]⟩

/-- Goes on from where a scanner has come to, with what it has found on the way. -/
def resume? (lexer : Lexer) (scan : Scan) : Option Lexer := do
  let harvest ← scan.events.toList.foldlM (Harvest.take? lexer.options) lexer.harvest
  return ⟨lexer.options, scan.mode, scan.pending, scan.start, harvest⟩

/-- Reads the character at an offset, seeing the one after it. -/
def advance? (lexer : Lexer) (offset : Nat) (c : Char) (ahead : Option Char) : Option Lexer :=
  lexer.resume? ((lexer.scanAt offset).read c ahead)

/-- Reads a text from an offset on. -/
def run? (lexer : Lexer) (offset : Nat) : List Char → Option Lexer
  | [] => some lexer
  | c :: rest => do
    let next ← lexer.advance? offset c rest.head?
    next.run? (offset + c.utf8Size) rest

/-- Ends the source at an offset. -/
def finish? (lexer : Lexer) (stop : Nat) : Option Lexer := do
  let ended ← lexer.resume? (lexer.scanAt stop).finish
  return { ended with harvest := ended.harvest.drain ended.options }

/-- Reads a source, and returns its forest and its diagnostics with what is left of the lexer. It
is none if an index ever leads nowhere. -/
def analyseWithDiagnostics? (lexer : Lexer) (source : String) :
    Option ((Forest Token × List Diagnostic) × Lexer) := do
  let read ← lexer.reset.run? 0 source.toList
  let ended ← read.finish? source.utf8ByteSize
  return ((ended.harvest.draft.forest, ended.harvest.diagnostics),
    { ended with harvest := ended.harvest.handOver })

/-- Reads a source, and returns its forest alone with what is left of the lexer. -/
def analyse? (lexer : Lexer) (source : String) : Option (Forest Token × Lexer) := do
  let ((forest, _), left) ← lexer.analyseWithDiagnostics? source
  return (forest, left)

end Lexer

/-- What a lexer can be called for. -/
inductive Call where
  /-- The forest of a source. -/
  | analyse (source : String)
  /-- The forest of a source and what is wrong with it. -/
  | analyseWithDiagnostics (source : String)
  deriving DecidableEq, Repr

/-- What a call returns. -/
inductive Answer where
  /-- The forest of a source. -/
  | forest (forest : Forest Token)
  /-- The forest of a source and what is wrong with it. -/
  | diagnosed (forest : Forest Token) (diagnostics : List Diagnostic)
  deriving DecidableEq

namespace Lexer

/-- Answers a call. -/
def call? (lexer : Lexer) : Call → Option (Answer × Lexer)
  | .analyse source => do
    let (forest, left) ← lexer.analyse? source
    return (.forest forest, left)
  | .analyseWithDiagnostics source => do
    let ((forest, diagnostics), left) ← lexer.analyseWithDiagnostics? source
    return (.diagnosed forest diagnostics, left)

/-- Answers some calls, one after the other. -/
def session? (lexer : Lexer) : List Call → Option (List Answer)
  | [] => some []
  | call :: rest => do
    let (answer, left) ← lexer.call? call
    let answers ← left.session? rest
    return answer :: answers

end Lexer

end XQueryLexer
