import XQueryLexer.Proofs.Lexeme.Scanning
import XQueryLexer.Proofs.Nesting.Draft
import XQueryLexer.Session

/-! A lexer that is called again and again, where each call starts with what the one before it has
left behind. -/

namespace XQueryLexer

namespace Scan

/-- A scan with some events found before its own. -/
def behind (found : Array Event) (scan : Scan) : Scan :=
  { scan with events := found ++ scan.events }

variable (found : Array Event) (scan : Scan)

/-- What a scan has found can be told apart from what it will find. -/
theorem behind_cleared : behind scan.events { scan with events := #[] } = scan := by
  simp [behind]

/-- An event is recorded behind what has been found before. -/
theorem record_behind (event : Event) :
    (scan.behind found).record event = (scan.record event).behind found := by
  -- Events are added at the end, and what was before them stays in front.
  simp [record, behind]

/-- A character is held back alike, whatever has been found before. -/
theorem extend_behind (c : Char) : (scan.behind found).extend c = (scan.extend c).behind found :=
  rfl

/-- A lexeme that is held back is found behind what has been found before. -/
theorem flush_behind (state : LexState) (stop : Nat) :
    (scan.behind found).flush state stop = (scan.flush state stop).behind found := by
  -- Whether anything is held back does not depend on what has been found.
  have pending : (scan.behind found).pending = scan.pending := rfl
  unfold flush
  rw [pending]
  split
  · rfl
  · exact record_behind found { scan with pending := "" } _

/-- A lexeme is found behind what has been found before. -/
theorem emit_behind (value : String) (state : LexState) :
    (scan.behind found).emit value state = (scan.emit value state).behind found :=
  scan.record_behind found _

/-- Every character is treated in the same way, whatever has been found before. -/
theorem treat_behind (treatment : Treatment) (c : Char) (ahead : Option Char) (new : LexState) :
    (scan.behind found).treat treatment c ahead new =
      (scan.treat treatment c ahead new).behind found := by
  -- Mode and offset are those of the scan, and each treatment has its law.
  have mode : (scan.behind found).mode = scan.mode := rfl
  have offset : (scan.behind found).offset = scan.offset := rfl
  simp only [treat, mode, offset]
  cases treatment <;> simp only [extend_behind, flush_behind, emit_behind]

/-- A character is read alike, whatever has been found before. -/
theorem read_behind (c : Char) (ahead : Option Char) :
    (scan.behind found).read c ahead = (scan.read c ahead).behind found := by
  have mode : (scan.behind found).mode = scan.mode := rfl
  have offset : (scan.behind found).offset = scan.offset := rfl
  simp only [read, mode, offset]
  -- A turn of the automaton is recorded or not, and then the character is treated.
  split
  · rw [treat_behind]
    rfl
  · rw [record_behind, treat_behind]
    rfl

/-- A text is read alike, whatever has been found before. -/
theorem run_behind (text : List Char) :
    (scan.behind found).run text = (scan.run text).behind found := by
  -- Induction on the text.
  induction text generalizing scan with
  | nil => rfl
  | cons c rest ih => rw [run, run, read_behind, ih]

/-- The end of the source is met alike, whatever has been found before. -/
theorem finish_behind : (scan.behind found).finish = scan.finish.behind found := by
  have mode : (scan.behind found).mode = scan.mode := rfl
  have offset : (scan.behind found).offset = scan.offset := rfl
  -- A state in which something is missing leaves a record of that behind the last lexeme.
  unfold finish
  rw [mode, offset]
  split
  · simp only [flush_behind, record_behind]
  · exact flush_behind found scan _ _

/-- Behind a text that has been read the next offset is that many bytes further. -/
theorem offset_run (text : List Char) : (scan.run text).offset = scan.offset + byteCount text := by
  -- Induction on the text, each character of which moves the offset by its size.
  induction text generalizing scan with
  | nil => rfl
  | cons c rest ih => rw [run, ih, byteCount_cons, ← Nat.add_assoc]; rfl

end Scan

namespace Lexer

variable (lexer : Lexer)

/-- Going on from where a scanner has come to, and then further, is the same as going on only then,
if how far that is does not depend on what has been found before. -/
theorem resume?_bind (scan : Scan) (more : Scan → Scan)
    (apart : ∀ found scan, more (scan.behind found) = (more scan).behind found) :
    ((lexer.resume? scan).bind fun next => next.resume? (more (next.scanAt scan.offset))) =
      lexer.resume? (more scan) := by
  have split := apart scan.events { scan with events := #[] }
  rw [Scan.behind_cleared] at split
  -- The events of the first part are taken in first on both sides.
  simp only [resume?, split, Scan.behind, Array.toList_append, List.foldlM_append]
  cases scan.events.toList.foldlM (Harvest.take? lexer.options) lexer.harvest <;> rfl

/-- What is found character by character can be taken in at the end of the text as well. -/
theorem run?_eq (offset : Nat) (text : List Char) :
    lexer.run? offset text = lexer.resume? ((lexer.scanAt offset).run text) := by
  induction text generalizing lexer offset with
  | nil => rfl
  | cons c rest ih =>
    -- Taking in the events of one character and then those of the others is to take in all of them.
    have further := lexer.resume?_bind ((lexer.scanAt offset).read c rest.head?) (Scan.run · rest)
      fun found scan => scan.run_behind found rest
    rw [Scan.run, ← further, run?, advance?]
    simp only [ih]
    rfl

/-- A source is read by taking in all that is found in it, and draining the harvest. -/
theorem analyseWithDiagnostics?_eq (source : String) : lexer.analyseWithDiagnostics? source =
    (lexer.reset.resume? (Scan.initial.run source.toList).finish).map fun ended =>
      let drained := ended.harvest.drain ended.options
      ((drained.draft.forest, drained.diagnostics),
        { ended with harvest := drained.handOver }) := by
  have offset_eq : (Scan.initial.run source.toList).offset = source.utf8ByteSize := by
    rw [Scan.offset_run, utf8ByteSize_eq_byteCount]
    exact Nat.zero_add _
  -- The end of the source adds its own events, which can be taken in together with the others.
  have further := lexer.reset.resume?_bind (Scan.initial.run source.toList) Scan.finish
    fun found scan => scan.finish_behind found
  rw [offset_eq] at further
  rw [← further, analyseWithDiagnostics?, run?_eq]
  have scan_eq : (lexer.reset.scanAt 0).run source.toList = Scan.initial.run source.toList := rfl
  rw [scan_eq]
  cases lexer.reset.resume? (Scan.initial.run source.toList) with
  | none => rfl
  | some read =>
    simp only [Option.bind_eq_bind, Option.bind_some, finish?]
    cases read.resume? (read.scanAt source.utf8ByteSize).finish <;> rfl

end Lexer

end XQueryLexer
