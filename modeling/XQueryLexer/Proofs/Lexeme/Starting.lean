import XQueryLexer.Mode
import XQueryLexer.Piece

/-! The first two characters of a lexeme decide its class, whatever the automaton read before. -/

namespace XQueryLexer

/-- A character that is neither a bracket nor a quotation mark. -/
structure IsPlain (c : Char) : Prop where
  /-- The character opens no bracket. -/
  opener : Bracket.ofOpener? c = none
  /-- The character closes no bracket. -/
  closer : Bracket.ofCloser? c = none
  /-- The character is no quotation mark. -/
  mark : Quote.ofMark? c = none

/-- Every character opens a bracket, closes one, is a quotation mark or is plain. -/
theorem plain_or_structural (c : Char) :
    (∃ bracket : Bracket, c = bracket.opener) ∨ (∃ bracket : Bracket, c = bracket.closer) ∨
      (∃ quote : Quote, c = quote.mark) ∨ IsPlain c := by
  -- The three look-ups are tried one after the other, and what they find is the character itself.
  cases opens : Bracket.ofOpener? c with
  | some bracket => exact .inl ⟨bracket, Bracket.ofOpener?_eq_some_iff.mp opens⟩
  | none =>
    cases closes : Bracket.ofCloser? c with
    | some bracket => exact .inr (.inl ⟨bracket, Bracket.ofCloser?_eq_some_iff.mp closes⟩)
    | none =>
      cases marks : Quote.ofMark? c with
      | some quote => exact .inr (.inr (.inl ⟨quote, Quote.ofMark?_eq_some_iff.mp marks⟩))
      | none => exact .inr (.inr (.inr ⟨opens, closes, marks⟩))

/-- A plain character opens no bracket, in particular no round one. -/
theorem IsPlain.ne_round {c : Char} (plain : IsPlain c) : c ≠ '(' := by
  -- Looking the bracket up would find it.
  rintro rfl
  exact absurd plain.opener (by decide)

/-- Whitespace is plain, and it is neither a letter nor a sign. -/
theorem plain_of_isSpace {c : Char} (space : isSpace c = true) :
    IsPlain c ∧ c ≠ 'Q' ∧ c ≠ '+' ∧ c ≠ '-' := by
  -- Each of the five whitespace characters is looked up on its own.
  simp only [isSpace, Bool.or_eq_true, decide_eq_true_eq] at space
  rcases space with (((rfl | rfl) | rfl) | rfl) | rfl <;>
    exact ⟨⟨rfl, rfl, rfl⟩, by decide, by decide, by decide⟩

/-- A separator is plain, and it is neither whitespace nor a letter nor a digit. -/
theorem plain_of_separator {c : Char} (listed : separators.contains c = true) :
    IsPlain c ∧ isSpace c = false ∧ c ≠ 'Q' ∧ c.isDigit = false := by
  -- Each of the listed separators is looked up on its own.
  simp only [separators, List.contains_eq_mem, List.mem_cons, List.not_mem_nil, or_false,
    decide_eq_true_eq] at listed
  rcases listed with rfl | rfl | rfl | rfl | rfl | rfl | rfl | rfl | rfl | rfl | rfl | rfl | rfl <;>
    exact ⟨⟨rfl, rfl, rfl⟩, rfl, by decide, rfl⟩

/-- A two-character operator consists of separators. -/
theorem separators_of_pair {c next : Char} (listed : pairedSeparators.contains (c, next) = true) :
    separators.contains c = true ∧ separators.contains next = true := by
  -- Both characters of each listed pair are listed by themselves.
  simp only [pairedSeparators, List.contains_eq_mem, List.mem_cons, List.not_mem_nil, or_false,
    decide_eq_true_eq, Prod.mk.injEq] at listed
  rcases listed with h | h | h | h | h | h | h | h | h | h | h | h | h <;>
    obtain ⟨rfl, rfl⟩ := h <;> exact ⟨rfl, rfl⟩

/-- A character that is no separator is not the first one of an operator. -/
theorem pairAhead_eq_false {c : Char} (single : separators.contains c = false)
    (ahead : Option Char) : pairAhead c ahead = false := by
  rw [pairAhead_eq]
  cases ahead with
  | none => rfl
  | some next =>
    cases listed : pairedSeparators.contains (c, next) with
    | false => exact listed
    | true =>
      -- The first character of a pair is a separator by itself.
      rw [(separators_of_pair listed).1] at single
      cases single

/-- A digit is plain, and it is neither whitespace nor a letter nor a separator. -/
theorem plain_of_isDigit {c : Char} (digit : c.isDigit = true) :
    IsPlain c ∧ isSpace c = false ∧ c ≠ 'Q' := by
  -- No character that is looked for is a digit, so the digit differs from each of them.
  have different : ∀ other : Char, other.isDigit = false → c ≠ other := by
    rintro other none rfl
    simp [digit] at none
  refine ⟨⟨?_, ?_, ?_⟩, ?_, different 'Q' rfl⟩
  · simp [Bracket.ofOpener?, different '(' rfl, different '[' rfl, different '{' rfl]
  · simp [Bracket.ofCloser?, different ')' rfl, different ']' rfl, different '\x7d' rfl]
  · simp [Quote.ofMark?, different '\'' rfl, different '"' rfl]
  · simp [isSpace, different ' ' rfl, different '\t' rfl, different '\n' rfl, different '\r' rfl,
      different '\x0c' rfl]

namespace LexState

/-- Whether a state classifies lexemes, and is not only passed through. -/
def isLexical : LexState → Bool
  | opening _ | closing _ | comment | quoted _ | uriLiteral | whitespace | number | word _
  | separator | pair => true
  | _ => false

/-- Whether a state classifies brackets, each of which is a lexeme by itself. -/
def isBracket : LexState → Bool
  | opening _ | closing _ => true
  | _ => false

/-- What is known of the first character of a lexeme, and of the one ahead, from its class. -/
inductive Starts (c : Char) (ahead : Option Char) : LexState → Prop
  | space (space : isSpace c = true) : Starts c ahead whitespace
  | comment (round : c = '(') (colon : ahead = some ':') : Starts c ahead comment
  | uriLiteral (letter : c = 'Q') (brace : ahead = some '{') : Starts c ahead uriLiteral
  | emptyBracket (bracket : Bracket) (opens : c = bracket.opener)
      (closes : ahead = some bracket.closer) : Starts c ahead pair
  | opener (bracket : Bracket) (opens : c = bracket.opener) (apart : ahead ≠ some bracket.closer)
      (code : ¬(c = '(' ∧ ahead = some ':')) : Starts c ahead (opening bracket)
  | closer (bracket : Bracket) (closes : c = bracket.closer) : Starts c ahead (closing bracket)
  | mark (quote : Quote) (marks : c = quote.mark) : Starts c ahead (quoted quote)
  | operator (next : Char) (follows : ahead = some next)
      (listed : pairedSeparators.contains (c, next) = true) : Starts c ahead pair
  | number (start : c.isDigit = true ∨ c = '.' ∧ ahead.any Char.isDigit = true) :
      Starts c ahead number
  | separator (listed : separators.contains c = true) : Starts c ahead separator
  | word (sigil : Sigil) (plain : IsPlain c) (dark : isSpace c = false)
      (single : separators.contains c = false) (code : ¬(c = 'Q' ∧ ahead = some '{')) :
      Starts c ahead (word sigil)

/-- The class of a lexeme that an opening bracket starts. -/
theorem starting_opener (bracket : Bracket) (ahead : Option Char) :
    starting bracket.opener ahead =
      if bracket.opener = '(' ∧ ahead = some ':' then comment
      else if ahead = some bracket.closer then pair else opening bracket := by
  -- None of the three is whitespace or a letter, so the look-up of openers decides.
  cases bracket <;> simp [starting, isSpace, Bracket.opener, Bracket.ofOpener?]

/-- The class of a lexeme that a closing bracket starts. -/
theorem starting_closer (bracket : Bracket) (ahead : Option Char) :
    starting bracket.closer ahead = closing bracket := by
  cases bracket <;> rfl

/-- The class of a lexeme that a quotation mark starts. -/
theorem starting_mark (quote : Quote) (ahead : Option Char) :
    starting quote.mark ahead = quoted quote := by
  cases quote <;> rfl

/-- The class of a lexeme that a plain character starts. -/
theorem starting_plain {c : Char} (plain : IsPlain c) (ahead : Option Char) :
    starting c ahead =
      if isSpace c then whitespace
      else if c = 'Q' ∧ ahead = some '{' then uriLiteral
      else if c = '+' ∨ c = '-' then separator
      else if pairAhead c ahead then pair
      else if c.isDigit ∨ (c = '.' ∧ digitAhead ahead) then number
      else if separators.contains c then separator
      else if c = '$' then word .dollar
      else if c = '@' then word .atSign
      else word .bare := by
  -- Neither a comment nor any of the three look-ups can hold, and the other tests are the same.
  have notRound := plain.ne_round
  obtain ⟨opener, closer, mark⟩ := plain
  rw [pairAhead_eq]
  simp [starting, opener, closer, mark, notRound, digitAhead]

/-- The class that is found for an opening bracket fits the character behind it. -/
theorem starts_opener (bracket : Bracket) (ahead : Option Char) :
    Starts bracket.opener ahead (starting bracket.opener ahead) := by
  rw [starting_opener]
  -- A comment is told from a bracket first, and brackets around nothing from an opened one.
  split
  · rename_i round
    exact .comment round.1 round.2
  · rename_i code
    split
    · rename_i closes
      exact .emptyBracket bracket rfl closes
    · rename_i apart
      exact .opener bracket rfl apart code

/-- The class that is found for a plain character fits that and the one behind it. -/
theorem starts_plain {c : Char} (plain : IsPlain c) (ahead : Option Char) :
    Starts c ahead (starting c ahead) := by
  rw [starting_plain plain]
  -- Each test that fails is one thing more that is known of a character that starts a word.
  cases dark : isSpace c with
  | true => exact .space dark
  | false =>
    rw [if_neg (by simp)]
    by_cases letter : c = 'Q' ∧ ahead = some '{'
    · rw [if_pos letter]
      exact .uriLiteral letter.1 letter.2
    rw [if_neg letter]
    by_cases sign : c = '+' ∨ c = '-'
    · rw [if_pos sign]
      exact .separator (by rcases sign with rfl | rfl <;> rfl)
    rw [if_neg sign]
    by_cases paired : pairAhead c ahead = true
    · rw [if_pos paired]
      rw [pairAhead_eq] at paired
      obtain ⟨next, follows, listed⟩ := (Option.any_eq_true _ _).mp paired
      exact .operator next follows listed
    rw [if_neg paired]
    by_cases digit : c.isDigit = true ∨ c = '.' ∧ digitAhead ahead = true
    · rw [if_pos digit]
      exact .number digit
    rw [if_neg digit]
    by_cases listed : separators.contains c = true
    · rw [if_pos listed]
      exact .separator listed
    rw [if_neg listed]
    -- What is left starts a word, whose sigil does not matter here.
    have word : ∀ sigil, Starts c ahead (word sigil) := fun sigil =>
      .word sigil plain dark (by simpa using listed) letter
    split
    · exact word .dollar
    · split
      · exact word .atSign
      · exact word .bare

/-- The class that is found for a lexeme fits its first two characters. -/
theorem starts_starting (c : Char) (ahead : Option Char) : Starts c ahead (starting c ahead) := by
  -- Brackets and marks are told apart first, and a plain character runs through the tests in order.
  rcases plain_or_structural c with ⟨bracket, rfl⟩ | ⟨bracket, rfl⟩ | ⟨quote, rfl⟩ | plain
  · exact starts_opener bracket ahead
  · rw [starting_closer]
    exact .closer bracket rfl
  · rw [starting_mark]
    exact .mark quote rfl
  · exact starts_plain plain ahead

/-- Every lexeme has a class that classifies lexemes. -/
theorem starting_isLexical (c : Char) (ahead : Option Char) :
    (starting c ahead).isLexical = true := by
  -- The states that are only passed through have no way to start.
  have starts := starts_starting c ahead
  generalize starting c ahead = state at starts
  cases starts <;> rfl

/-- What is no delimiter is plain, and it is neither whitespace nor a separator. -/
theorem isDelimiter_eq_false_iff {c : Char} : Extent.isDelimiter c = false ↔
    IsPlain c ∧ isSpace c = false ∧ separators.contains c = false := by
  -- A delimiter is one of five things, and the character is none of them.
  constructor
  · intro free
    simp only [Extent.isDelimiter, Bool.or_eq_false_iff, Option.isSome_eq_false_iff,
      Option.isNone_iff_eq_none] at free
    obtain ⟨⟨⟨⟨dark, opener⟩, closer⟩, mark⟩, single⟩ := free
    exact ⟨⟨opener, closer, mark⟩, dark, single⟩
  · rintro ⟨⟨opener, closer, mark⟩, dark, single⟩
    simp only [Extent.isDelimiter, opener, closer, mark, dark, single, Option.isSome_none,
      Bool.or_false]

/-- The first character of a word would also carry one on. -/
theorem continuesWord_of_starts {c : Char} {ahead : Option Char} {sigil : Sigil}
    (starts : Starts c ahead (word sigil)) : Extent.continuesWord c ahead = true := by
  -- What starts a word is no delimiter, and that alone is enough to carry one on.
  cases starts with
  | word _ plain dark single code =>
    have free := isDelimiter_eq_false_iff.mpr ⟨plain, dark, single⟩
    have inner : (decide (c = 'Q') && decide (ahead = some '{')) = false := by simpa using code
    simp only [Extent.continuesWord, free, inner, Bool.or_false, Bool.not_false, Bool.or_true]

/-- Inside a word the automaton holds on to the word at every character that is no delimiter. -/
theorem entering_word {c : Char} {ahead : Option Char} (free : Extent.isDelimiter c = false)
    (code : ¬(c = 'Q' ∧ ahead = some '{')) (sigil : Sigil) :
    (word sigil).entering c ahead = word sigil := by
  -- Every test before that for a held word fails, because each of them finds a delimiter.
  obtain ⟨⟨opener, closer, mark⟩, dark, single⟩ := isDelimiter_eq_false_iff.mp free
  have alone := pairAhead_eq_false single ahead
  have different : ∀ other, separators.contains other = true → c ≠ other := by
    rintro other listed rfl
    simp only [listed, Bool.true_eq_false] at single
  simp only [entering, reading, opener, closer, mark, dark, single, alone, isWord]
  simp [code, different '+' rfl, different '-' rfl, different '.' rfl]

/-- A plain character that ends a word is whitespace, a separator or the start of a URI literal. -/
theorem separator_of_ends {c : Char} {ahead : Option Char} (plain : IsPlain c)
    (dark : isSpace c = false) (code : ¬(c = 'Q' ∧ ahead = some '{'))
    (ends : Extent.continuesWord c ahead = false) : separators.contains c = true ∧ c ≠ '.' := by
  -- If the character were no separator, it would be no delimiter at all and carry the word on.
  have free := (isDelimiter_eq_false_iff (c := c)).mpr
  simp only [Extent.continuesWord, Bool.or_eq_false_iff, decide_eq_false_iff_not] at ends
  refine ⟨?_, ends.1.1.2⟩
  cases listed : separators.contains c with
  | true => rfl
  | false => simp [free ⟨plain, dark, listed⟩, code] at ends

/-- Where no word goes on, the automaton reads a character as the start of a lexeme. -/
theorem entering_eq_starting {held : LexState} {c : Char} {ahead : Option Char}
    (ends : held.isWord = true → Extent.continuesWord c ahead = false) :
    held.entering c ahead = starting c ahead := by
  -- Only the last tests, which a plain character reaches, look at the state that is held.
  rcases plain_or_structural c with ⟨bracket, rfl⟩ | ⟨bracket, rfl⟩ | ⟨quote, rfl⟩ | plain
  · rw [starting_opener]
    cases bracket <;> simp [entering, Bracket.opener, Bracket.ofOpener?]
  · rw [starting_closer]
    cases bracket <;> rfl
  · rw [starting_mark]
    cases quote <;> rfl
  · rw [starting_plain plain]
    simp only [entering, reading, plain.opener, plain.closer, plain.mark]
    cases dark : isSpace c with
    | true =>
      obtain ⟨-, letter, plus, minus⟩ := plain_of_isSpace dark
      simp [letter, plus, minus]
    | false =>
      -- A word that is held can only be kept by a character that is no separator.
      have single := fun word code => separator_of_ends plain dark code (ends word)
      have digit := fun listed => (plain_of_separator (c := c) listed).2.2.2
      grind

end LexState

end XQueryLexer
