import XQueryLexer.Proofs.Lexeme.Boundary

/-! The scanner finds the lexemes that a text shows from the start of each one on. -/

namespace XQueryLexer

/-- The number of bytes of a text. -/
def byteCount : List Char → Nat
  | [] => 0
  | c :: rest => c.utf8Size + byteCount rest

/-- No characters have no bytes. -/
@[simp] theorem byteCount_nil : byteCount [] = 0 := rfl

/-- A character in front of others adds its bytes to theirs. -/
@[simp] theorem byteCount_cons (c : Char) (text : List Char) :
    byteCount (c :: text) = c.utf8Size + byteCount text := rfl

/-- Two texts in a row have the bytes of both. -/
@[simp] theorem byteCount_append (first second : List Char) :
    byteCount (first ++ second) = byteCount first + byteCount second := by
  -- The bytes of the first text are counted in front on both sides.
  induction first with
  | nil => simp
  | cons c rest ih => simp [ih, Nat.add_assoc]

/-- A string made of characters has as many bytes as they have. -/
@[simp] theorem utf8ByteSize_ofList (text : List Char) :
    (String.ofList text).utf8ByteSize = byteCount text := by
  -- A string is its first character followed by the string of the others.
  induction text with
  | nil => rfl
  | cons c rest ih => rw [String.ofList_cons, String.utf8ByteSize_append, ih]; simp

/-- A string has as many bytes as its characters. -/
theorem utf8ByteSize_eq_byteCount (source : String) :
    source.utf8ByteSize = byteCount source.toList := by
  rw [← utf8ByteSize_ofList, String.ofList_toList]

namespace Event

/-- Whether an event says something about the source, and not only about the automaton. -/
def isFinding : Event → Bool
  | turn _ _ _ _ => false
  | lexeme _ | unterminated _ => true

/-- The event for a piece of a text that starts at an offset. -/
def ofPiece (start : Nat) (piece : List Char) (state : LexState) : Event :=
  .lexeme ⟨.ofList piece, state, start, start + byteCount piece⟩

/-- The event for the end of a text inside a lexeme of some class, if the lexeme needs an end. -/
def ofEnd (state : LexState) (offset : Nat) : List Event :=
  (state.unterminated?.map fun fault => .unterminated (.ofOffset fault offset)).toList

/-- The events of a text that starts at an offset, read lexeme by lexeme. -/
def ofText (offset : Nat) : List Char → List Event
  | [] => []
  | c :: rest =>
    let state := LexState.starting c rest.head?
    match state.extent? rest with
    | some more =>
      let piece := c :: rest.take more
      ofPiece offset piece state :: ofText (offset + byteCount piece) (rest.drop more)
    | none => ofPiece offset (c :: rest) state :: ofEnd state (offset + byteCount (c :: rest))
termination_by text => text.length
decreasing_by simp only [List.length_drop, List.length_cons]; omega

/-- The events of a text in which a lexeme goes on that began at an offset with some characters. -/
def ofRest (start : Nat) (begun : List Char) (mode : Mode) (text : List Char) : List Event :=
  match mode.extent? text with
  | some more =>
    let piece := begun ++ text.take more
    ofPiece start piece mode.state :: ofText (start + byteCount piece) (text.drop more)
  | none =>
    ofPiece start (begun ++ text) mode.state ::
      ofEnd mode.state (start + byteCount (begun ++ text))

/-- A text begins with a lexeme that goes on after its first character. -/
theorem ofText_cons (offset : Nat) (c : Char) (rest : List Char) :
    ofText offset (c :: rest) = ofRest offset [c] (.starting c rest.head?) rest := by
  -- The mode after the first character reaches as far as the class of the lexeme does.
  rw [ofText, ofRest, Mode.starting_extent?]
  simp only [Mode.starting]
  cases (LexState.starting c rest.head?).extent? rest <;> simp

end Event

/-- The events of a scan that say something about the source. -/
def Scan.findings (scan : Scan) : List Event :=
  scan.events.toList.filter Event.isFinding

/-- The events for a lexeme that ends, which are none if nothing has been read of it. -/
def Event.ofPending (start : Nat) (pending : List Char) (state : LexState) : List Event :=
  if pending = [] then [] else [.ofPiece start pending state]

namespace Scan

/-- What a scan holds between two characters: the mode, where the pending lexeme starts or the next
one would, what is pending, and what has been found. -/
structure Holds (scan : Scan) (mode : Mode) (start : Nat) (pending : List Char)
    (findings : List Event) : Prop where
  /-- The automaton is in the mode. -/
  mode_eq : scan.mode = mode
  /-- The pending lexeme consists of the characters. -/
  pending_eq : scan.pending = .ofList pending
  /-- The scan remembers where the pending lexeme starts, if there is one. -/
  start_eq : pending ≠ [] → scan.start = start
  /-- The next character stands behind the pending ones. -/
  offset_eq : scan.offset = start + byteCount pending
  /-- The events are what has been found. -/
  findings_eq : scan.findings = findings

variable {scan : Scan} {mode : Mode} {start : Nat} {pending : List Char} {findings : List Event}

/-- An event is the last finding, unless it is a turn. -/
theorem findings_record (scan : Scan) (event : Event) : (scan.record event).findings =
    scan.findings ++ if event.isFinding then [event] else [] := by
  -- Filtering goes through to the event that is pushed last.
  simp only [findings, record, Array.toList_push, List.filter_append]
  cases found : event.isFinding <;> simp [found]

/-- A piece that is found is the last finding. -/
theorem findings_record_ofPiece (scan : Scan) (start : Nat) (piece : List Char)
    (state : LexState) : (scan.record (.ofPiece start piece state)).findings =
      scan.findings ++ [.ofPiece start piece state] :=
  findings_record scan _

/-- A whole lexeme that is found is a piece at the current character. -/
theorem emit_ofList (scan : Scan) (piece : List Char) (state : LexState) :
    scan.emit (.ofList piece) state = scan.record (.ofPiece scan.offset piece state) := by
  simp only [emit, Event.ofPiece, utf8ByteSize_ofList]

/-- A turn of the automaton changes nothing that a scan holds. -/
theorem Holds.noted (holds : scan.Holds mode start pending findings) (c : Char)
    (ahead : Option Char) (old new : LexState) :
    (scan.record (.turn c ahead old new)).Holds mode start pending findings where
  mode_eq := holds.mode_eq
  pending_eq := holds.pending_eq
  start_eq := holds.start_eq
  offset_eq := holds.offset_eq
  -- The turn goes into the events, but it is no finding.
  findings_eq := by rw [findings_record, holds.findings_eq]; simp [Event.isFinding]

/-- Reading a character carries out its treatment and moves the automaton and the offset on. -/
theorem Holds.read (holds : scan.Holds mode start pending findings) (c : Char)
    (ahead : Option Char) : ∃ noted : Scan, noted.Holds mode start pending findings ∧
      scan.read c ahead =
        { noted.treat (mode.state.treatment (mode.next c ahead).state) c ahead
            (mode.next c ahead).state with
          mode := mode.next c ahead
          offset := start + byteCount pending + c.utf8Size } := by
  -- The turn that may be noted first is no finding.
  unfold Scan.read
  rw [holds.mode_eq, holds.offset_eq]
  dsimp only
  split
  · exact ⟨scan, holds, rfl⟩
  · exact ⟨_, holds.noted c ahead _ _, rfl⟩

/-- A character that is added to a lexeme with characters before it does not move its start. -/
theorem extend_ofPiece {scan : Scan} {piece : List Char} (filled : piece ≠ [])
    (pending_eq : scan.pending = .ofList piece) (c : Char) :
    scan.extend c = { scan with pending := .ofList (piece ++ [c]) } := by
  -- Only an empty lexeme takes its start from the offset.
  have filled : (String.ofList piece).isEmpty = false := by simpa using filled
  simp only [Scan.extend, pending_eq, filled, String.push_eq_append, String.singleton_eq_ofList,
    String.ofList_append]
  rfl

/-- A character that is added to the pending lexeme starts one if none is pending. -/
theorem Holds.extend (holds : scan.Holds mode start pending findings) (c : Char) :
    (scan.extend c).pending = .ofList (pending ++ [c]) ∧ (scan.extend c).start = start ∧
      (scan.extend c).findings = findings := by
  by_cases empty : pending = []
  · -- The lexeme starts at the offset, which is where the next one would start.
    subst empty
    refine ⟨?_, ?_, holds.findings_eq⟩
    · simp [Scan.extend, holds.pending_eq]
    · simp [Scan.extend, holds.pending_eq, holds.offset_eq]
  · rw [extend_ofPiece empty holds.pending_eq]
    exact ⟨rfl, holds.start_eq empty, holds.findings_eq⟩

/-- Ending a pending lexeme finds it as a piece and leaves nothing pending. -/
theorem flush_ofPiece {scan : Scan} {piece : List Char} (filled : piece ≠ [])
    (pending_eq : scan.pending = .ofList piece) (state : LexState) :
    scan.flush state (scan.start + byteCount piece) =
      { scan with pending := "" }.record (.ofPiece scan.start piece state) := by
  -- The end of the piece is given, and it is where the bytes of the piece end.
  have filled : (String.ofList piece).isEmpty = false := by simpa using filled
  simp [Scan.flush, pending_eq, filled, Event.ofPiece]

/-- Ending the pending lexeme at the next character leaves nothing pending. -/
theorem Holds.flush (holds : scan.Holds mode start pending findings) :
    (scan.flush mode.state scan.offset).Holds mode (start + byteCount pending) []
      (findings ++ Event.ofPending start pending mode.state) := by
  by_cases empty : pending = []
  · -- Without a pending lexeme nothing happens.
    subst empty
    have unchanged : scan.flush mode.state scan.offset = scan := by
      simp [Scan.flush, holds.pending_eq]
    rw [unchanged]
    simpa [Event.ofPending] using holds
  · -- The next lexeme would start where the pending one ends.
    rw [holds.offset_eq, ← holds.start_eq empty, flush_ofPiece empty holds.pending_eq]
    refine ⟨holds.mode_eq, rfl, by simp, ?_, ?_⟩
    · simpa [record, holds.start_eq empty] using holds.offset_eq
    · rw [findings_record_ofPiece, Event.ofPending, if_neg empty, ← holds.findings_eq]
      rfl

/-- A character that carries on the pending lexeme is added to it. -/
theorem Holds.read_extend {c : Char} {ahead : Option Char}
    (holds : scan.Holds mode start pending findings)
    (treated : mode.state.treatment (mode.next c ahead).state = .extend) :
    (scan.read c ahead).Holds (mode.next c ahead) start (pending ++ [c]) findings := by
  -- The treatment only adds the character, and the offset moves on by its bytes.
  obtain ⟨noted, held, read⟩ := holds.read c ahead
  obtain ⟨pending_eq, start_eq, findings_eq⟩ := held.extend c
  rw [read, treated]
  exact ⟨rfl, pending_eq, fun _ => start_eq, by simp [Nat.add_assoc], findings_eq⟩

/-- A character that starts a span ends the pending lexeme and is pending by itself. -/
theorem Holds.read_restart {c : Char} {ahead : Option Char}
    (holds : scan.Holds mode start pending findings)
    (treated : mode.state.treatment (mode.next c ahead).state = .restart) :
    (scan.read c ahead).Holds (mode.next c ahead) (start + byteCount pending) [c]
      (findings ++ Event.ofPending start pending mode.state) := by
  -- What is pending is ended first, so that the character starts a lexeme where that stops.
  obtain ⟨noted, held, read⟩ := holds.read c ahead
  obtain ⟨pending_eq, start_eq, findings_eq⟩ := held.flush.extend c
  rw [read, treated]
  simp only [treat, held.mode_eq]
  exact ⟨rfl, pending_eq, fun _ => start_eq, by simp, findings_eq⟩

/-- A character by itself ends the pending lexeme and leaves nothing pending. -/
theorem Holds.read_alone {c : Char} {ahead : Option Char}
    (holds : scan.Holds mode start pending findings)
    (treated : mode.state.treatment (mode.next c ahead).state = .alone) :
    (scan.read c ahead).Holds (mode.next c ahead) (start + byteCount pending + c.utf8Size) []
      (findings ++ Event.ofPending start pending mode.state ++
        [.ofPiece (start + byteCount pending) [c] (mode.next c ahead).state]) := by
  -- What is pending is ended at the offset at which the character by itself is found.
  obtain ⟨noted, held, read⟩ := holds.read c ahead
  have flushed := held.flush
  rw [read, treated]
  simp only [treat, held.mode_eq]
  rw [String.singleton_eq_ofList, emit_ofList, flushed.offset_eq, byteCount_nil, Nat.add_zero]
  refine ⟨rfl, flushed.pending_eq, by simp, by simp, ?_⟩
  exact (findings_record_ofPiece _ _ _ _).trans (by rw [flushed.findings_eq])

/-- A character that takes the next one along ends the pending lexeme in front of the two. -/
theorem Holds.read_withNext {c next : Char}
    (holds : scan.Holds mode start pending findings)
    (treated : mode.state.treatment (mode.next c (some next)).state = .withNext) :
    (scan.read c (some next)).Holds (mode.next c (some next))
      (start + byteCount pending + c.utf8Size) []
      (findings ++ Event.ofPending start pending mode.state ++
        [.ofPiece (start + byteCount pending) [c, next] (mode.next c (some next)).state]) := by
  -- The piece of both characters is found at once, but only the first one is read.
  obtain ⟨noted, held, read⟩ := holds.read c (some next)
  have flushed := held.flush
  rw [read, treated]
  simp only [treat, held.mode_eq, Option.toList_some]
  rw [emit_ofList, flushed.offset_eq, byteCount_nil, Nat.add_zero]
  refine ⟨rfl, flushed.pending_eq, by simp, by simp, ?_⟩
  exact (findings_record_ofPiece _ _ _ _).trans (by rw [flushed.findings_eq])

/-- A character that has been taken along leaves nothing pending. -/
theorem Holds.read_skip (holds : scan.Holds mode start [] findings) (c : Char)
    (ahead : Option Char)
    (treated : mode.state.treatment (mode.next c ahead).state = .skip) :
    (scan.read c ahead).Holds (mode.next c ahead) (start + c.utf8Size) [] findings := by
  -- Nothing is pending, so the next lexeme would start behind the character.
  obtain ⟨noted, held, read⟩ := holds.read c ahead
  rw [read, treated]
  exact ⟨rfl, held.pending_eq, by simp, by simp, held.findings_eq⟩

/-- The last character of a literal ends it. -/
theorem Holds.read_finish {c : Char} {ahead : Option Char}
    (holds : scan.Holds mode start pending findings)
    (treated : mode.state.treatment (mode.next c ahead).state = .finish) :
    (scan.read c ahead).Holds (mode.next c ahead) (start + byteCount (pending ++ [c])) []
      (findings ++ [.ofPiece start (pending ++ [c]) mode.state]) := by
  obtain ⟨noted, held, read⟩ := holds.read c ahead
  obtain ⟨pending_eq, start_eq, findings_eq⟩ := held.extend c
  -- The lexeme ends behind the character, where the next one starts.
  have ended := flush_ofPiece (by simp) pending_eq mode.state
  have stop : noted.offset + c.utf8Size = start + byteCount (pending ++ [c]) := by
    simp [held.offset_eq, Nat.add_assoc]
  rw [start_eq, ← stop] at ended
  rw [read, treated]
  simp only [treat, held.mode_eq]
  rw [ended]
  refine ⟨rfl, rfl, by simp, by simp [Nat.add_assoc], ?_⟩
  exact (findings_record_ofPiece _ _ _ _).trans (congrArg (· ++ _) findings_eq)

/-- The colon that ends a comment takes the bracket behind it along. -/
theorem Holds.read_finishComment (holds : scan.Holds mode start pending findings)
    (ahead : Option Char)
    (treated : mode.state.treatment (mode.next ':' ahead).state = .finishComment) :
    (scan.read ':' ahead).Holds (mode.next ':' ahead) (start + byteCount (pending ++ [':'])) []
      (findings ++ [.ofPiece start (pending ++ [':', ')']) mode.state]) := by
  obtain ⟨noted, held, read⟩ := holds.read ':' ahead
  obtain ⟨pending_eq, start_eq, findings_eq⟩ := held.extend ':'
  -- The bracket joins the colon before the lexeme ends, while the offset stays at the bracket.
  have joined : (noted.extend ':').extend ')' =
      { noted.extend ':' with pending := .ofList (pending ++ [':', ')']) } := by
    rw [extend_ofPiece (by simp) pending_eq]
    simp only [List.append_assoc, List.cons_append, List.nil_append]
  have stop : noted.offset + 2 = (noted.extend ':').start + byteCount (pending ++ [':', ')']) := by
    rw [held.offset_eq, start_eq, byteCount_append, Nat.add_assoc]
    rfl
  have ended : ((noted.extend ':').extend ')').flush mode.state (noted.offset + 2) =
      { noted.extend ':' with pending := "" }.record
        (.ofPiece (noted.extend ':').start (pending ++ [':', ')']) mode.state) := by
    rw [joined, stop]
    exact flush_ofPiece (by simp) rfl mode.state
  rw [read, treated]
  simp only [treat, held.mode_eq]
  rw [ended, start_eq]
  refine ⟨rfl, rfl, by simp, by simp [Nat.add_assoc], ?_⟩
  exact (findings_record_ofPiece _ _ _ _).trans (congrArg (· ++ _) findings_eq)

/-- The end of a text ends the lexeme that is pending. -/
theorem Holds.finish (holds : scan.Holds mode start pending findings) :
    scan.finish.findings = findings ++ Event.ofPending start pending mode.state ++
      Event.ofEnd mode.state (start + byteCount pending) := by
  -- The lexeme is found first, and what is wrong with it stands behind it.
  have flushed := holds.flush
  simp only [Scan.finish, holds.mode_eq, Event.ofEnd]
  cases mode.state.unterminated? with
  | none => simpa using flushed.findings_eq
  | some fault =>
    rw [findings_record, flushed.findings_eq, holds.offset_eq]
    rfl

end Scan

end XQueryLexer
