import XQueryLexer.Proofs.Lexeme.Starting
import XQueryLexer.Scan

/-! How the automaton goes on with a lexeme, and how it gets from one lexeme to the next. -/

namespace XQueryLexer

/-- Whether a state stands between two lexemes, with nothing pending. -/
def LexState.isResting : LexState → Bool
  | initial | opening _ | closing _ | quoteEnd _ | uriLiteralEnd | separator | pairEnd => true
  | _ => false

/-- Whether the lexemes of a class can have any number of characters. -/
def LexState.isSpan : LexState → Bool
  | comment | quoted _ | uriLiteral | whitespace | number | word _ => true
  | _ => false

/-- The treatment of the first character of a lexeme. -/
def Treatment.ofStart : LexState → Treatment
  | .pair => .withNext
  | .separator | .opening _ | .closing _ => .alone
  | _ => .restart

namespace Mode

/-- The mode after the first character of a lexeme. -/
def starting (c : Char) (ahead : Option Char) : Mode :=
  let state := LexState.starting c ahead
  ⟨state, if state = .comment then 1 else 0⟩

/-- How many characters ahead belong to the lexeme that the mode is inside of, where nothing is
said if only the end of the text ends the lexeme. -/
def extent? (mode : Mode) (text : List Char) : Option Nat :=
  match mode.state with
  | .comment => Extent.ofComment? mode.depth text
  | state => state.extent? text

/-- After its first character a lexeme reaches as far as its class says. -/
theorem starting_extent? (c : Char) (ahead : Option Char) (text : List Char) :
    (starting c ahead).extent? text = (LexState.starting c ahead).extent? text := by
  -- Only a comment looks at the depth, which is one after its first character.
  simp only [starting, extent?]
  cases LexState.starting c ahead <;> rfl

/-- A mode that reads a character as the start of a lexeme, whatever it is the mode of. -/
structure Forgets (mode : Mode) (c : Char) (ahead : Option Char) : Prop where
  /-- The mode reached depends on the two characters alone. -/
  next_eq : mode.next c ahead = starting c ahead
  /-- So does the treatment of the character. -/
  treatment_eq :
    mode.state.treatment (LexState.starting c ahead) = .ofStart (LexState.starting c ahead)

/-- The character is treated as the start of the lexeme that the automaton turns to. -/
theorem Forgets.treated {mode : Mode} {c : Char} {ahead : Option Char}
    (forgets : mode.Forgets c ahead) : mode.state.treatment (mode.next c ahead).state =
      .ofStart (LexState.starting c ahead) := by
  -- The mode reached is that of a start, and so is the treatment.
  rw [forgets.next_eq]
  exact forgets.treatment_eq

/-- A start is treated as one unless it carries on the same state. -/
theorem treatment_ofStart {old new : LexState} (lexical : new.isLexical = true)
    (fresh : new = old → old.splitsOnRepeat = true)
    (settled : old.isResting = true ∨ old.isSpan = true) :
    old.treatment new = .ofStart new := by
  -- Neither an exponent nor an escape nor the end of a comment stands before a start.
  have exponent : old ≠ .exponent := by
    rintro rfl
    simp [LexState.isResting, LexState.isSpan] at settled
  have ended : old ≠ .commentEnd := by
    rintro rfl
    simp [LexState.isResting, LexState.isSpan] at settled
  have escape : old.isEscape = false := by
    cases old <;> simp_all [LexState.isResting, LexState.isSpan, LexState.isEscape]
  -- Nor is the state carried on, since a state that stays the same splits on repetition.
  have apart : (new = old && !old.splitsOnRepeat) = false := by
    by_cases same : new = old
    · simp [fresh same]
    · simp [same]
  cases new <;> simp_all [LexState.treatment, Treatment.ofStart, LexState.isLexical]

/-- A mode outside comments forgets what came before where it reads the start of a lexeme. -/
theorem forgets_of_enter {mode : Mode} {c : Char} {ahead : Option Char} (outside : mode.depth = 0)
    (enters : mode.next c ahead = mode.enter c ahead)
    (ends : mode.state.isWord = true → Extent.continuesWord c ahead = false)
    (fresh : LexState.starting c ahead = mode.state → mode.state.splitsOnRepeat = true)
    (settled : mode.state.isResting = true ∨ mode.state.isSpan = true) : mode.Forgets c ahead where
  -- Behind a depth of zero a character that is entered counts nothing.
  next_eq := by rw [enters, enter, LexState.entering_eq_starting ends, outside]; rfl
  treatment_eq := treatment_ofStart (LexState.starting_isLexical c ahead) fresh settled

/-- Between two lexemes every character starts a lexeme. -/
theorem forgets_of_isResting {mode : Mode} (outside : mode.depth = 0)
    (resting : mode.state.isResting = true) (c : Char) (ahead : Option Char) :
    mode.Forgets c ahead := by
  -- No resting state holds a word, and those that classify lexemes split on repetition.
  obtain ⟨state, depth⟩ := mode
  apply forgets_of_enter outside
  · cases state <;> simp_all [LexState.isResting, next]
  · cases state <;> simp_all [LexState.isResting, LexState.isWord]
  · have lexical := LexState.starting_isLexical c ahead
    intro same
    rw [same] at lexical
    cases state <;> simp_all [LexState.isResting, LexState.isLexical, LexState.splitsOnRepeat]
  · exact .inl resting

/-- Whitespace carries on whitespace. -/
theorem next_whitespace {c : Char} (space : isSpace c = true) (ahead : Option Char) :
    next ⟨.whitespace, 0⟩ c ahead = ⟨.whitespace, 0⟩ := by
  -- Whitespace has no rule of its own: it is entered again.
  have entered : LexState.entering .whitespace c ahead = .whitespace := by
    rw [LexState.entering_eq_starting (by simp [LexState.isWord])]
    simp [LexState.starting, space]
  simp [next, enter, entered]

/-- Every other character ends whitespace. -/
theorem forgets_whitespace {c : Char} (dark : isSpace c = false) (ahead : Option Char) :
    Forgets ⟨.whitespace, 0⟩ c ahead := by
  apply forgets_of_enter rfl rfl (by simp [LexState.isWord]) _ (.inr rfl)
  -- Only whitespace could start whitespace again.
  intro same
  have starts := LexState.starts_starting c ahead
  rw [same] at starts
  cases starts
  simp_all

/-- A digit or a point carries on a number. -/
theorem next_number {c : Char} (figure : c.isDigit = true ∨ c = '.') (ahead : Option Char) :
    next ⟨.number, 0⟩ c ahead = ⟨.number, 0⟩ := by
  simp [next, figure]

/-- An exponent mark carries on a number if a digit or a sign stands behind it. -/
theorem next_number_exponent {c next : Char} (figure : ¬(c.isDigit = true ∨ c = '.'))
    (mark : c = 'e' ∨ c = 'E') (start : Extent.isExponentStart next = true) :
    Mode.next ⟨.number, 0⟩ c (some next) = ⟨.exponent, 0⟩ := by
  -- The automaton tests for the two signs and the digit one by one.
  simp only [Extent.isExponentStart, Bool.or_eq_true, decide_eq_true_eq] at start
  simp only [Mode.next, Bool.or_eq_true, decide_eq_true_eq, figure, Bool.and_eq_true, mark]
  simp only [digitAhead, Option.any_some]
  grind

/-- Every other character ends a number. -/
theorem forgets_number {c : Char} {ahead : Option Char} (figure : ¬(c.isDigit = true ∨ c = '.'))
    (exponent : (c = 'e' ∨ c = 'E') → ahead.any Extent.isExponentStart = false) :
    Forgets ⟨.number, 0⟩ c ahead := by
  apply forgets_of_enter rfl _ (by simp [LexState.isWord]) _ (.inr rfl)
  · -- Both rules of a number fail, so that the character is entered.
    simp only [next, Bool.or_eq_true, decide_eq_true_eq, figure, Bool.and_eq_true]
    cases ahead <;> grind [Extent.isExponentStart, digitAhead]
  · -- A number cannot start again, because its first character would have carried it on.
    intro same
    have starts := LexState.starts_starting c ahead
    rw [same] at starts
    cases starts
    grind

/-- A character that carries on words carries on every word. -/
theorem next_word {c : Char} {ahead : Option Char} (continues : Extent.continuesWord c ahead = true)
    (sigil : Sigil) : next ⟨.word sigil, 0⟩ c ahead = ⟨.word sigil, 0⟩ := by
  by_cases inner : c = '-' ∨ c = '.' ∨ c = ':' ∧ ahead ≠ some ':'
  · -- These marks are separators elsewhere, and only a word has a rule for them.
    simp only [next]
    rw [if_pos (by simpa [or_assoc] using inner)]
  · -- Every other character is entered, which holds on to the word.
    have free : Extent.isDelimiter c = false ∧ ¬(c = 'Q' ∧ ahead = some '{') := by
      simp [Extent.continuesWord] at continues
      grind
    simp only [next]
    rw [if_neg (by simpa [or_assoc] using inner), enter, LexState.entering_word free.1 free.2 sigil]
    simp

/-- Every other character ends a word. -/
theorem forgets_word {c : Char} {ahead : Option Char} (ends : Extent.continuesWord c ahead = false)
    (sigil : Sigil) : Forgets ⟨.word sigil, 0⟩ c ahead := by
  apply forgets_of_enter rfl _ (fun _ => ends) _ (.inr rfl)
  · -- The rule of a word holds for no character that ends one.
    simp [Extent.continuesWord] at ends
    grind [next]
  · -- A word cannot start again, because its first character would have carried it on.
    intro same
    have continues := LexState.continuesWord_of_starts (same ▸ LexState.starts_starting c ahead)
    simp [ends] at continues

end Mode

end XQueryLexer
