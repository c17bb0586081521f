import XQueryLexer.Proofs.Lexeme.Scanning
import XQueryLexer.Watch

/-! The reader of delimiters passes over exactly the characters of each lexeme. -/

namespace XQueryLexer

/-- A character of code, seen with the one after it, that delimits nothing. -/
structure Idle (c : Char) (ahead : Option Char) : Prop where
  /-- The character is neither a bracket nor a quotation mark. -/
  plain : IsPlain c
  /-- The character does not start a URI literal. -/
  code : ¬(c = 'Q' ∧ ahead = some '{')

/-- Whitespace delimits nothing. -/
theorem idle_of_isSpace {c : Char} (space : isSpace c = true) (ahead : Option Char) :
    Idle c ahead := by
  -- Whitespace is no delimiter, and no letter that could start a literal.
  obtain ⟨plain, letter, -, -⟩ := plain_of_isSpace space
  exact ⟨plain, fun code => letter code.1⟩

/-- A separator delimits nothing. -/
theorem idle_of_separator {c : Char} (listed : separators.contains c = true)
    (ahead : Option Char) : Idle c ahead := by
  -- A separator is no delimiter, and no letter that could start a literal.
  obtain ⟨plain, -, letter, -⟩ := plain_of_separator listed
  exact ⟨plain, fun code => letter code.1⟩

/-- A digit or a point delimits nothing. -/
theorem idle_of_figure {c : Char} (figure : c.isDigit = true ∨ c = '.') (ahead : Option Char) :
    Idle c ahead := by
  -- A point is a separator, so its case is the one before.
  rcases figure with digit | rfl
  · obtain ⟨plain, -, letter⟩ := plain_of_isDigit digit
    exact ⟨plain, fun code => letter code.1⟩
  · exact idle_of_separator rfl ahead

/-- What stands behind an exponent mark delimits nothing. -/
theorem idle_of_isExponentStart {c : Char} (start : Extent.isExponentStart c = true)
    (ahead : Option Char) : Idle c ahead := by
  -- The two signs are separators elsewhere.
  simp only [Extent.isExponentStart, Bool.or_eq_true, decide_eq_true_eq] at start
  rcases start with (digit | rfl) | rfl
  · exact idle_of_figure (.inl digit) ahead
  · exact idle_of_separator rfl ahead
  · exact idle_of_separator rfl ahead

/-- A character that carries on a word delimits nothing. -/
theorem idle_of_continuesWord {c : Char} {ahead : Option Char}
    (continues : Extent.continuesWord c ahead = true) : Idle c ahead := by
  simp only [Extent.continuesWord, Bool.or_eq_true, decide_eq_true_eq, Bool.and_eq_true,
    Bool.not_eq_true', Bool.or_eq_false_iff, ne_eq] at continues
  -- The three marks that stand inside words are separators elsewhere.
  rcases continues with ((rfl | rfl) | ⟨rfl, -⟩) | ⟨free, code⟩
  · exact idle_of_separator rfl ahead
  · exact idle_of_separator rfl ahead
  · exact idle_of_separator rfl ahead
  · exact ⟨(LexState.isDelimiter_eq_false_iff.mp free).1, by simpa using code⟩

namespace Watch

variable {watch after : Watch} {offset : Nat}

/-- A character that is read by itself leaves the text behind it. -/
theorem run_single {c : Char} {rest : List Char}
    (read_eq : watch.read offset c rest.head? = (after, false)) :
    watch.run offset (c :: rest) = after.run (offset + c.utf8Size) rest := by
  -- The reader takes the character and goes on with the rest.
  rw [run, read_eq]
  simp

/-- A character that takes the next one along leaves the text behind both. -/
theorem run_both {c next : Char} {more : List Char}
    (read_eq : watch.read offset c (some next) = (after, true)) :
    watch.run offset (c :: next :: more) =
      after.run (offset + byteCount [c, next]) more := by
  -- The reader takes two characters, and both count for the offset.
  rw [run, List.head?_cons, read_eq]
  simp [Nat.add_assoc]

/-- A character that delimits nothing is passed over. -/
theorem run_idle {c : Char} {rest : List Char} (code : watch.region = .code)
    (idle : Idle c rest.head?) :
    watch.run offset (c :: rest) = watch.run (offset + c.utf8Size) rest := by
  -- Every test of the reader fails, so that it stays as it is.
  obtain ⟨⟨opener, closer, mark⟩, start⟩ := idle
  have round : c ≠ '(' := IsPlain.ne_round ⟨opener, closer, mark⟩
  apply run_single
  simp [read, code, readCode, opener, closer, mark, start, round]

/-- Whitespace is passed over. -/
theorem run_space (code : watch.region = .code) (text : List Char) :
    watch.run offset text = watch.run (offset + byteCount (text.take (Extent.ofSpace text)))
      (text.drop (Extent.ofSpace text)) := by
  -- The induction is on the text, with the offset left open.
  induction text generalizing offset with
  | nil => simp [Extent.ofSpace]
  | cons c rest ih =>
    cases space : isSpace c with
    | true =>
      have longer : Extent.ofSpace (c :: rest) = Extent.ofSpace rest + 1 := by
        simp [Extent.ofSpace, space]
      rw [run_idle code (idle_of_isSpace space _), ih, longer]
      simp [Nat.add_assoc]
    | false => simp [Extent.ofSpace, space]

/-- What carries on a word is passed over. -/
theorem run_word (code : watch.region = .code) (text : List Char) :
    watch.run offset text = watch.run (offset + byteCount (text.take (Extent.ofWord text)))
      (text.drop (Extent.ofWord text)) := by
  -- The same induction, where each character is judged with the one after it.
  induction text generalizing offset with
  | nil => simp [Extent.ofWord]
  | cons c rest ih =>
    cases continues : Extent.continuesWord c rest.head? with
    | true =>
      have longer : Extent.ofWord (c :: rest) = Extent.ofWord rest + 1 := by
        simp [Extent.ofWord, continues]
      rw [run_idle code (idle_of_continuesWord continues), ih, longer]
      simp [Nat.add_assoc]
    | false => simp [Extent.ofWord, continues]

/-- What carries on a number is passed over. -/
theorem run_number (code : watch.region = .code) (text : List Char) :
    watch.run offset text = watch.run (offset + byteCount (text.take (Extent.ofNumber text)))
      (text.drop (Extent.ofNumber text)) := by
  -- An exponent takes two characters at once, so the induction follows the extent.
  fun_induction Extent.ofNumber text generalizing offset with
  | case1 => simp
  | case2 c rest figure ih =>
    rw [run_idle code (idle_of_figure (by simpa using figure) _), ih]
    simp [Nat.add_assoc]
  | case3 c figure => simp
  | case4 c figure next more exponent ih =>
    -- Neither the exponent mark nor what stands behind it delimits anything.
    obtain ⟨mark, start⟩ := (Bool.and_eq_true _ _).mp exponent
    have idle : Idle c (some next) := by
      simp only [Bool.or_eq_true, decide_eq_true_eq] at mark
      rcases mark with rfl | rfl <;> exact ⟨⟨rfl, rfl, rfl⟩, by simp⟩
    rw [run_idle code idle, run_idle code (idle_of_isExponentStart start _), ih]
    simp [Nat.add_assoc]
  | case5 c figure next more exponent => simp

/-- What is found in a text of which a literal or a comment takes in some characters, or all. -/
def behind (watch : Watch) (region : Region) (offset : Nat) (text : List Char) :
    Option Nat → List (Fault × Nat)
  | some more => (watch.enter .code).run (offset + byteCount (text.take more)) (text.drop more)
  | none => (watch.enter region).finish (offset + byteCount text)

/-- A literal that takes in one more character leaves the same text. -/
theorem behind_cons (watch : Watch) (region : Region) (offset : Nat) (c : Char)
    (rest : List Char) (extent : Option Nat) :
    watch.behind region offset (c :: rest) (extent.map (· + 1)) =
      watch.behind region (offset + c.utf8Size) rest extent := by
  -- Either way the one character has been counted already.
  cases extent <;> simp [behind, Nat.add_assoc]

/-- How deep comments are nested makes no difference where the text ends inside them. -/
theorem behind_comment (watch : Watch) (first second offset : Nat) (text : List Char)
    (extent : Option Nat) : watch.behind (.comment first) offset text extent =
      watch.behind (.comment second) offset text extent := by
  -- With an end the depth is zero there, and without one it is asked for no more.
  cases extent <;> rfl

/-- A string literal is passed over. -/
theorem run_quoted (watch : Watch) (quote : Quote) (offset : Nat) (text : List Char) :
    (watch.enter (.quoted quote)).run offset text =
      watch.behind (.quoted quote) offset text (Extent.ofString? quote.mark text) := by
  -- Two marks at once take two characters, so the hypothesis has to reach over both.
  fun_induction Extent.ofString? quote.mark text generalizing offset with
  | case1 => simp [behind, run]
  | case2 c rest inner ih =>
    rw [behind_cons, ← ih]
    apply run_single
    simp [read, enter, inner]
  | case3 c inner =>
    obtain rfl : c = quote.mark := by simpa using inner
    apply run_single
    simp [read, enter]
  | case4 c inner more ih =>
    obtain rfl : c = quote.mark := by simpa using inner
    have both : (watch.enter (.quoted quote)).read offset quote.mark (some quote.mark) =
        (watch.enter (.quoted quote), true) := by
      simp [read, enter]
    rw [run_both both, ih]
    cases Extent.ofString? quote.mark more <;> simp [behind, Nat.add_assoc]
  | case5 c inner next more single =>
    obtain rfl : c = quote.mark := by simpa using inner
    apply run_single
    simp [read, enter, single]

/-- A URI literal is passed over. -/
theorem run_uriLiteral (watch : Watch) (offset : Nat) (text : List Char) :
    (watch.enter .uriLiteral).run offset text =
      watch.behind .uriLiteral offset text (Extent.ofUriLiteral? text) := by
  -- Both sides look for the first closing brace.
  fun_induction Extent.ofUriLiteral? text generalizing offset with
  | case1 => simp [behind, run]
  | case2 rest =>
    apply run_single
    simp [read, enter]
  | case3 c rest inner ih =>
    rw [behind_cons, ← ih]
    apply run_single
    simp [read, enter, inner]

/-- A comment is passed over with the comments inside it. -/
theorem run_comment (watch : Watch) (nested offset : Nat) (text : List Char) :
    (watch.enter (.comment nested)).run offset text =
      watch.behind (.comment nested) offset text (Extent.ofComment? nested text) := by
  -- The counter of the region goes along with that of the extent.
  fun_induction Extent.ofComment? nested text generalizing offset with
  | case1 nested => simp [behind, run]
  | case2 nested c rest opens ih =>
    rw [behind_cons, behind_comment watch nested (nested + 1), ← ih]
    apply run_single
    simp [read, enter, opens]
  | case3 c rest opens closes =>
    -- The bracket behind the colon is taken along, so that it closes nothing else.
    obtain ⟨rfl, follows⟩ : c = ':' ∧ rest.head? = some ')' := by simpa using closes
    obtain ⟨more, rfl⟩ := List.head?_eq_some_iff.mp follows
    apply run_both
    simp [read, enter]
  | case4 nested c rest opens closes deeper ih =>
    rw [behind_cons, behind_comment watch nested (nested - 1), ← ih]
    apply run_single
    simp [read, enter, opens, closes, deeper]
  | case5 nested c rest opens closes ih =>
    rw [behind_cons, ← ih]
    apply run_single
    simp [read, enter, opens, closes]

/-- A literal or a comment is passed over from its first character on. -/
theorem run_enclosed (code : watch.region = .code) {c : Char} {rest : List Char} {state : LexState}
    (starts : state.Starts c rest.head?) (enclosed : state.unterminated?.isSome = true) :
    ∃ region : Region, state.unterminated? = region.fault? ∧
      watch.run offset (c :: rest) =
        watch.behind region offset (c :: rest) ((state.extent? rest).map (· + 1)) := by
  -- The first character leads into a region, and the region is passed over as a whole.
  cases starts with
  | comment round colon =>
    refine ⟨.comment 1, rfl, ?_⟩
    rw [behind_cons]
    refine (run_single ?_).trans (run_comment watch 1 _ rest)
    simp [read, code, readCode, round, colon]
  | uriLiteral letter brace =>
    refine ⟨.uriLiteral, rfl, ?_⟩
    rw [behind_cons]
    refine (run_single ?_).trans (run_uriLiteral watch _ rest)
    simp [read, code, readCode, letter, brace]
  | mark quote marks =>
    refine ⟨.quoted quote, rfl, ?_⟩
    rw [behind_cons]
    refine (run_single ?_).trans (run_quoted watch quote _ rest)
    cases quote <;> simp [read, code, readCode, marks, Quote.mark, Quote.ofMark?, Bracket.ofOpener?,
      Bracket.ofCloser?]
  | _ => simp [LexState.unterminated?] at enclosed

/-- A lexeme that neither is a bracket nor encloses anything is passed over. -/
theorem run_idleLexeme (code : watch.region = .code) {c : Char} {rest : List Char} {more : Nat}
    {state : LexState} (starts : state.Starts c rest.head?)
    (extent : state.extent? rest = some more) (apart : state.isBracket = false)
    (ends : state.unterminated? = none) :
    watch.run offset (c :: rest) =
      watch.run (offset + byteCount (c :: rest.take more)) (rest.drop more) := by
  rw [byteCount_cons, ← Nat.add_assoc]
  -- The first character is idle, and so is everything that the lexeme takes in behind it.
  cases starts with
  | space space =>
    obtain rfl := Option.some.inj extent
    rw [run_idle code (idle_of_isSpace space _), run_space code]
  | number start =>
    obtain rfl := Option.some.inj extent
    rw [run_idle code (idle_of_figure (start.imp_right And.left) _), run_number code]
  | word sigil plain dark single start =>
    obtain rfl := Option.some.inj extent
    rw [run_idle code ⟨plain, start⟩, run_word code]
  | separator listed =>
    obtain rfl := Option.some.inj extent
    exact run_idle code (idle_of_separator listed _)
  | operator next follows listed =>
    obtain rfl := Option.some.inj extent
    obtain ⟨left, rfl⟩ := List.head?_eq_some_iff.mp follows
    obtain ⟨first, second⟩ := separators_of_pair listed
    rw [run_idle code (idle_of_separator first _), run_idle code (idle_of_separator second _)]
    simp [Nat.add_assoc]
  | emptyBracket bracket opens closes =>
    obtain rfl := Option.some.inj extent
    obtain ⟨left, rfl⟩ := List.head?_eq_some_iff.mp closes
    -- The reader takes both brackets at once, without opening anything.
    have both : watch.read offset c (some bracket.closer) = (watch, true) := by
      subst opens
      cases bracket <;> simp [read, code, readCode, Bracket.opener, Bracket.closer,
        Bracket.ofOpener?]
    rw [run_both both]
    simp [Nat.add_assoc]
  -- The classes that are left are those that the hypotheses rule out.
  | opener | closer => simp [LexState.isBracket] at apart
  | comment | uriLiteral | mark => simp [LexState.unterminated?] at ends

end Watch

end XQueryLexer
