import XQueryLexer.Proofs.Lexeme.Starting
import XQueryLexer.Scan

/-! The states in which a lexeme is pending, however far a source has been read. -/

namespace XQueryLexer

/-- Whether a scan is inside a lexeme after a character that leads to the state. -/
def LexState.isPending : LexState → Bool
  | comment | quoted _ | quoteEscape _ | uriLiteral => true
  | whitespace | number | exponent | word _ => true
  | _ => false

namespace LexState

/-- Outside every delimiter a character leads to a state that classifies lexemes. -/
theorem reading_isLexical (held : LexState) (c : Char) (ahead : Option Char) :
    (held.reading c ahead).isLexical = true := by
  unfold reading
  split
  · rfl
  split
  · rfl
  split
  · rfl
  split
  · -- A word that is held is a class of lexemes itself.
    rename_i word
    cases held with
    | word sigil => rfl
    | _ => simp [isWord] at word
  split
  · rfl
  split
  · rfl
  split <;> rfl

/-- Where a lexeme may end, a character leads to a state that classifies lexemes. -/
theorem entering_isLexical (held : LexState) (c : Char) (ahead : Option Char) :
    (held.entering c ahead).isLexical = true := by
  unfold entering
  split
  · rfl
  split
  · -- A bracket opens a comment, or it is one of two in a row, or it stands for itself.
    split
    · rfl
    split <;> rfl
  split
  · rfl
  split
  · rfl
  split
  · rfl
  split
  · rfl
  · exact held.reading_isLexical c ahead

/-- What is known of the state that a character leads to from another one. -/
structure Leads (old new : LexState) : Prop where
  /-- No character leads back to the start. -/
  onward : new ≠ .initial
  /-- A pair ends only behind itself. -/
  pair : new = .pairEnd → old = .pair
  /-- Behind a bracket a lexeme starts. -/
  bracket : old.isBracket = true → new.isLexical = true
  /-- A state that goes on is inside a lexeme, unless each of its characters is one. -/
  stays : new = old → old.splitsOnRepeat = false → new.isPending = true

/-- A class of lexemes is led to from every state but that of a pair. -/
theorem Leads.of_isLexical {old new : LexState} (lexical : new.isLexical = true)
    (apart : old ≠ .pair) : Leads old new where
  onward := by
    rintro rfl
    cases lexical
  pair := by
    rintro rfl
    cases lexical
  bracket _ := lexical
  stays same single := by
    subst same
    -- A class that is no span either starts a lexeme at each character or is that of a pair.
    cases new with
    | pair => exact absurd rfl apart
    | opening | closing | separator => cases single
    | initial | commentEnd | quoteEnd | quoteEscape | uriLiteralEnd | exponent | pairEnd =>
      cases lexical
    | _ => rfl

/-- Another state is led to from no bracket, and only once. -/
theorem Leads.of_ne {old new : LexState} (inside : old.isBracket = false) (onward : new ≠ .initial)
    (pair : new = .pairEnd → old = .pair) (differs : new ≠ old) : Leads old new where
  onward := onward
  pair := pair
  -- There is no bracket to lead from.
  bracket bracket := by rw [inside] at bracket; cases bracket
  stays same _ := absurd same differs

end LexState

/-- Each character leads to a state of which this is known. -/
theorem Mode.leads_next (mode : Mode) (c : Char) (ahead : Option Char) :
    mode.state.Leads (mode.next c ahead).state := by
  -- Wherever a lexeme may end, every other one may start.
  have enters (apart : mode.state ≠ .pair) : mode.state.Leads (mode.enter c ahead).state :=
    .of_isLexical (mode.state.entering_isLexical c ahead) apart
  obtain ⟨state, depth⟩ := mode
  simp only [next]
  cases state with
  | number =>
    -- Another figure or point, the mark of an exponent, or what ends the number.
    dsimp only
    split
    · exact .of_isLexical rfl (by simp)
    split
    · exact .of_ne rfl (by simp) (by simp) (by simp)
    · exact enters (by simp)
  | exponent => exact .of_isLexical rfl (by simp)
  | word sigil =>
    -- A character that carries the word on by its own rule, or one that is classified again.
    dsimp only
    split
    · exact .of_isLexical rfl (by simp)
    · exact enters (by simp)
  | pair => exact .of_ne rfl (by simp) (fun _ => rfl) (by simp)
  | uriLiteral =>
    -- The brace ends the literal, and every other character goes on with it.
    dsimp only
    split
    · exact .of_ne rfl (by simp) (by simp) (by simp)
    · exact .of_isLexical rfl (by simp)
  | quoted quote =>
    -- Only the mark of the literal leads out of it, or to the second one of two marks.
    dsimp only
    split
    · exact .of_isLexical rfl (by simp)
    split <;> exact .of_ne rfl (by simp) (by simp) (by simp)
  | quoteEscape quote => exact .of_isLexical rfl (by simp)
  | comment =>
    dsimp only
    split
    · -- The outermost comment ends, and every other one is inside a comment.
      split
      · exact .of_ne rfl (by simp) (by simp) (by simp)
      · exact .of_isLexical rfl (by simp)
    split <;> exact .of_isLexical rfl (by simp)
  | _ => exact enters (by simp)

/-- Whether a lexeme is pending after a character is treated, where it is known whether one was
pending before. -/
def Treatment.pendingAfter (before : Bool) : Treatment → Bool
  | extend | restart => true
  | alone | withNext | finish | finishComment => false
  | skip => before

/-- Only a pair is a lexeme together with the next character. -/
theorem LexState.eq_pair_of_treatment {old new : LexState}
    (treated : old.treatment new = .withNext) : new = .pair := by
  unfold treatment at treated
  split at treated
  · cases treated
  · -- Every other state has a treatment of its own, whatever the one before it.
    cases new with
    | pair => rfl
    | closing | quoted | comment | whitespace | uriLiteral =>
      dsimp only at treated
      split at treated <;> cases treated
    | _ => cases treated

namespace LexState.Leads

variable {old new : LexState}

/-- The treatment of a character leaves a lexeme pending exactly in the states inside a lexeme. -/
theorem pendingAfter_treatment (leads : old.Leads new) :
    (old.treatment new).pendingAfter old.isPending = new.isPending := by
  unfold treatment
  split
  · rename_i goesOn
    simp only [Bool.or_eq_true, Bool.and_eq_true, decide_eq_true_eq, Bool.not_eq_true'] at goesOn
    -- What goes on is pending already, and so is a number behind its exponent mark.
    rcases goesOn with ⟨same, single⟩ | ⟨-, rfl⟩
    · exact (leads.stays same single).symm
    · rfl
  · cases new with
    -- No character leads back to the start.
    | initial => exact absurd rfl leads.onward
    | pairEnd =>
      rw [leads.pair rfl]
      rfl
    | closing bracket =>
      -- Nothing is pending behind a comment, whose last bracket has been taken in before.
      dsimp only
      split
      · rename_i ended
        rw [ended]
        rfl
      · rfl
    | quoted | comment | whitespace | uriLiteral =>
      dsimp only
      split <;> rfl
    | _ => rfl

/-- Behind a bracket no lexeme is ended. -/
theorem isBracket_of_treatment (leads : old.Leads new)
    (treated : old.treatment new = .finish ∨ old.treatment new = .finishComment) :
    old.isBracket = false := by
  refine Bool.eq_false_iff.mpr fun bracket => ?_
  -- Behind a bracket a lexeme starts, and none of those that can start ends one.
  have lexical := leads.bracket bracket
  unfold treatment at treated
  split at treated
  · simp at treated
  · cases new with
    | initial | commentEnd | quoteEnd | quoteEscape | uriLiteralEnd | exponent | pairEnd =>
      cases lexical
    | closing | quoted | comment | whitespace | uriLiteral =>
      dsimp only at treated
      split at treated <;> simp at treated
    | _ => simp at treated

end LexState.Leads

namespace Scan

variable {scan : Scan}

/-- A lexeme that is extended is pending. -/
theorem isEmpty_extend (scan : Scan) (c : Char) : (scan.extend c).pending.isEmpty = false := by
  simp [extend]

/-- A lexeme that is ended is not pending. -/
theorem isEmpty_flush (scan : Scan) (state : LexState) (stop : Nat) :
    (scan.flush state stop).pending.isEmpty = true := by
  -- There was nothing to be ended, or it has been taken away.
  unfold flush
  split
  · assumption
  · rfl

/-- A treatment leaves a lexeme pending as it says. -/
theorem isEmpty_treat (scan : Scan) (treatment : Treatment) (c : Char) (ahead : Option Char)
    (new : LexState) : (scan.treat treatment c ahead new).pending.isEmpty =
      !treatment.pendingAfter (!scan.pending.isEmpty) := by
  -- Each treatment either adds a character last, or ends what is pending last, or does neither.
  cases treatment with
  | extend => exact scan.isEmpty_extend c
  | restart => exact isEmpty_extend _ c
  | alone => exact isEmpty_flush _ _ _
  | withNext => exact isEmpty_flush _ _ _
  | finish => exact isEmpty_flush _ _ _
  | finishComment => exact isEmpty_flush _ _ _
  | skip => exact (Bool.not_not _).symm

/-- A scan that has found brackets only as characters by themselves. -/
def FindsBrackets (scan : Scan) : Prop :=
  ∀ found : Lexeme, .lexeme found ∈ scan.events.toList → found.state.isBracket = true →
    ∃ c, found.value = .singleton c

namespace FindsBrackets

/-- A lexeme that is a bracket only if it is a single character can be found. -/
theorem record (finds : scan.FindsBrackets) {event : Event}
    (single : ∀ found, event = .lexeme found → found.state.isBracket = true →
      ∃ c, found.value = .singleton c) : (scan.record event).FindsBrackets := by
  -- The event is the last one, so every lexeme is an earlier one or the event itself.
  intro found member bracket
  rw [Scan.record, Array.toList_push] at member
  rcases List.mem_append.mp member with earlier | added
  · exact finds found earlier bracket
  · exact single found (List.mem_singleton.mp added).symm bracket

/-- A pending lexeme that is no bracket can be ended. -/
theorem flush (finds : scan.FindsBrackets) {state : LexState} (stop : Nat)
    (apart : scan.pending.isEmpty = false → state.isBracket = false) :
    (scan.flush state stop).FindsBrackets := by
  unfold Scan.flush
  split
  · exact finds
  · rename_i pending
    -- The lexeme that is found has the class of the state, which is no bracket.
    refine record finds ?_
    intro found same bracket
    obtain rfl := Event.lexeme.inj same
    rw [apart (by simpa using pending)] at bracket
    cases bracket

/-- A lexeme can be found at the current character if it is that character or no bracket. -/
theorem emit (finds : scan.FindsBrackets) {value : String} {state : LexState}
    (single : state.isBracket = true → ∃ c, value = .singleton c) :
    (scan.emit value state).FindsBrackets := by
  -- The lexeme that is found has the value and the class that are given.
  refine record finds ?_
  intro found same bracket
  obtain rfl := Event.lexeme.inj same
  exact single bracket

/-- Every character is treated so that brackets are found as characters by themselves. -/
theorem treat (finds : scan.FindsBrackets) {new : LexState} (leads : scan.mode.state.Leads new)
    (apart : scan.pending.isEmpty = false → scan.mode.state.isBracket = false) (c : Char)
    (ahead : Option Char) :
    (scan.treat (scan.mode.state.treatment new) c ahead new).FindsBrackets := by
  have ended := finds.flush scan.offset apart
  -- What is found is the pending lexeme, or the character, or the pair that begins with it.
  cases treated : scan.mode.state.treatment new with
  | extend => exact finds
  | restart => exact ended
  | alone => exact ended.emit fun _ => ⟨c, rfl⟩
  | withNext =>
    obtain rfl := LexState.eq_pair_of_treatment treated
    exact ended.emit fun bracket => by cases bracket
  | finish =>
    exact @flush (scan.extend c) finds _ _ fun _ => leads.isBracket_of_treatment (.inl treated)
  | finishComment =>
    exact @flush ((scan.extend c).extend ')') finds _ _ fun _ =>
      leads.isBracket_of_treatment (.inr treated)
  | skip => exact finds

end FindsBrackets

/-- A scan in which a lexeme is pending exactly in the states inside a lexeme. -/
structure Keeps (scan : Scan) : Prop where
  /-- The pending lexeme is empty in the other states. -/
  pending : scan.pending.isEmpty = !scan.mode.state.isPending
  /-- Brackets have been found only as characters by themselves. -/
  finds : scan.FindsBrackets

/-- A pending lexeme is no bracket. -/
theorem Keeps.apart (keeps : scan.Keeps) (some_pending : scan.pending.isEmpty = false) :
    scan.mode.state.isBracket = false := by
  -- No state inside a lexeme is that of a bracket.
  have pending := keeps.pending
  rw [some_pending] at pending
  cases state : scan.mode.state with
  | opening | closing =>
    rw [state] at pending
    cases pending
  | _ => rfl

/-- Nothing is pending before the first character. -/
theorem keeps_initial : initial.Keeps :=
  ⟨rfl, by simp [FindsBrackets, initial]⟩

/-- Every character leaves a lexeme pending exactly inside a lexeme. -/
theorem Keeps.read (keeps : scan.Keeps) (c : Char) (ahead : Option Char) :
    (scan.read c ahead).Keeps := by
  -- That the automaton turns to another state is noted before, which changes nothing else.
  obtain ⟨noted, read_eq, mode_eq, pending_eq, finds⟩ : ∃ noted : Scan, scan.read c ahead =
      { noted.treat (scan.mode.state.treatment (scan.mode.next c ahead).state) c ahead
          (scan.mode.next c ahead).state with
        mode := scan.mode.next c ahead
        offset := scan.offset + c.utf8Size } ∧
      noted.mode = scan.mode ∧ noted.pending = scan.pending ∧ noted.FindsBrackets := by
    by_cases stays : (scan.mode.next c ahead).state = scan.mode.state
    · exact ⟨scan, by simp only [Scan.read, if_pos stays], rfl, rfl, keeps.finds⟩
    · refine ⟨scan.record (.turn c ahead scan.mode.state (scan.mode.next c ahead).state),
        by simp only [Scan.read, if_neg stays], rfl, rfl, keeps.finds.record ?_⟩
      intro found same
      cases same
  have leads := scan.mode.leads_next c ahead
  have apart := keeps.apart
  have pending := keeps.pending
  rw [← mode_eq] at leads apart pending
  rw [← pending_eq] at apart pending
  rw [read_eq, ← mode_eq]
  refine ⟨?_, finds.treat leads apart c ahead⟩
  exact (isEmpty_treat _ _ _ _ _).trans (by
    rw [pending, Bool.not_not, leads.pendingAfter_treatment])

/-- Reads some characters, seeing the others behind them. -/
def advance (scan : Scan) (behind : List Char) : List Char → Scan
  | [] => scan
  | c :: rest => (scan.read c (rest ++ behind).head?).advance behind rest

/-- A text is read by reading its front and then its back. -/
theorem run_append (scan : Scan) (front back : List Char) :
    scan.run (front ++ back) = (scan.advance back front).run back := by
  -- One character after the other is read with the same one ahead of it.
  induction front generalizing scan with
  | nil => rfl
  | cons c rest ih => rw [List.cons_append, run, ih, advance]

/-- Wherever a scan has come to, a lexeme is pending exactly inside a lexeme. -/
theorem Keeps.advance (keeps : scan.Keeps) (behind text : List Char) :
    (scan.advance behind text).Keeps := by
  -- Each character keeps it.
  induction text generalizing scan with
  | nil => exact keeps
  | cons c rest ih => exact ih (keeps.read c _)

/-- At the end of a text, too, a lexeme is pending exactly inside a lexeme. -/
theorem Keeps.run (keeps : scan.Keeps) (text : List Char) : (scan.run text).Keeps := by
  -- Each character keeps it, also the last one with nothing ahead.
  induction text generalizing scan with
  | nil => exact keeps
  | cons c rest ih => exact ih (keeps.read c _)

/-- A pending lexeme is known by the state. -/
theorem Keeps.pending_ne_iff (keeps : scan.Keeps) :
    scan.pending ≠ "" ↔ scan.mode.state.isPending = true := by
  -- That something is pending says that the text is not empty.
  have pending := keeps.pending
  rw [Ne, ← String.isEmpty_iff, pending]
  simp

/-- The end of the source adds no bracket to what has been found. -/
theorem Keeps.finish (keeps : scan.Keeps) : scan.finish.FindsBrackets := by
  -- The lexeme that is pending is no bracket, and what is wrong with it is no lexeme.
  have ended := keeps.finds.flush scan.offset keeps.apart
  unfold Scan.finish
  split
  · refine ended.record ?_
    intro found same
    cases same
  · exact ended

end Scan

end XQueryLexer
