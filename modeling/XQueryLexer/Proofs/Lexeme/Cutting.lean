import XQueryLexer.Proofs.Lexeme.Starting

/-! Where a lexeme ends, if something else is written behind it than what stood there. -/

namespace XQueryLexer

/-- Whitespace is neither a figure nor a letter, and it is no sign either. -/
theorem dark_of_isSpace {c : Char} (space : isSpace c = true) :
    c.isDigit = false ∧ c ≠ '.' ∧ c ≠ 'e' ∧ c ≠ 'E' ∧ Extent.isExponentStart c = false := by
  -- Each of the five whitespace characters is looked up on its own.
  simp only [isSpace, Bool.or_eq_true, decide_eq_true_eq] at space
  rcases space with (((rfl | rfl) | rfl) | rfl) | rfl <;> decide

/-- Whitespace ahead is no more to a lexeme than nothing at all. -/
theorem LexState.starting_space {next : Char} (space : isSpace next = true) (c : Char) :
    starting c (some next) = starting c none := by
  -- No character that is looked for ahead is whitespace.
  have different : ∀ other : Char, isSpace other = false → next ≠ other := by
    rintro other dark rfl
    simp [space] at dark
  have closers (bracket : Bracket) : next ≠ bracket.closer :=
    different _ (by cases bracket <;> rfl)
  have alone : pairedSeparators.contains (c, next) = false := by
    cases listed : pairedSeparators.contains (c, next) with
    | false => rfl
    | true => simp [(plain_of_separator (separators_of_pair listed).2).2.1] at space
  have figure : next.isDigit = false := (dark_of_isSpace space).1
  simp only [starting, Option.any_some, Option.any_none, alone, figure, Option.some.injEq, closers,
    different ':' rfl, different '{' rfl, if_false, reduceCtorEq]

/-- A text that starts with the same character as another one, or with whitespace, or not at all. -/
inductive StartsAlike (rest other : List Char) : Prop
  | same (eq : other.head? = rest.head?)
  | space (next : Char) (found : other.head? = some next) (space : isSpace next = true)
  | ends (nothing : other = [])

/-- With the rest of a lexeme in front of both texts, the start is the same. -/
theorem StartsAlike.append {rest other : List Char} (alike : StartsAlike rest other)
    (more : List Char) : StartsAlike (more ++ rest) (more ++ other) := by
  -- Only where nothing is in front do the texts themselves start.
  cases more with
  | nil => exact alike
  | cons c more => exact .same rfl

/-- A text that ends every lexeme that another text ends, except that whitespace does not end
itself. -/
structure EndsAlike (rest other : List Char) : Prop where
  /-- What a lexeme sees ahead stays the same, or it becomes whitespace or nothing. -/
  head : StartsAlike rest other
  /-- It carries on a number only if the other text does. -/
  number : Extent.ofNumber rest = 0 → Extent.ofNumber other = 0
  /-- It carries on a word only if the other text does. -/
  word : Extent.ofWord rest = 0 → Extent.ofWord other = 0

namespace Extent

variable {rest other : List Char}

/-- Whitespace carries on neither a number nor a word. -/
theorem ofSpace_stop {c : Char} (space : isSpace c = true) (rest : List Char) :
    ofNumber (c :: rest) = 0 ∧ ofWord (c :: rest) = 0 := by
  obtain ⟨digit, point, small, large, -⟩ := dark_of_isSpace space
  refine ⟨ofNumber_stop (by simp [digit, point]) (by simp [small, large]), ?_⟩
  -- Whitespace is a delimiter, and none of the marks that a word takes in.
  have ends : continuesWord c rest.head? = false := by
    simp only [isSpace, Bool.or_eq_true, decide_eq_true_eq] at space
    rcases space with (((rfl | rfl) | rfl) | rfl) | rfl <;>
      simp [continuesWord, isDelimiter, isSpace]
  simp [ofWord, ends]

/-- A number does not go on where it did not, if what is ahead becomes whitespace or nothing at
most. -/
theorem ofNumber_ahead {c : Char} (ahead : StartsAlike rest other)
    (stops : ofNumber (c :: rest) = 0) : ofNumber (c :: other) = 0 := by
  -- Neither a figure nor an exponent stands at the front, or the number would have taken it in.
  have figure : ¬(c.isDigit = true ∨ c = '.') := fun figure => by
    simp [ofNumber_figure figure] at stops
  refine ofNumber_stop figure fun mark => ?_
  have first : rest.head?.any isExponentStart = false := by
    cases rest with
    | nil => rfl
    | cons next more =>
      cases start : isExponentStart next with
      | false => exact start
      | true => simp [ofNumber_exponent figure mark start] at stops
  rcases ahead with same | ⟨next, found, space⟩ | rfl
  · rw [same, first]
  · -- Whitespace is no start of an exponent.
    rw [found, Option.any_some]
    exact (dark_of_isSpace space).2.2.2.2
  · rfl

/-- A word does not go on where it did not, if what is ahead becomes whitespace or nothing at most
and the first character still starts the same class of lexeme. -/
theorem ofWord_ahead {c : Char} (ahead : StartsAlike rest other)
    (class_eq : LexState.starting c other.head? = LexState.starting c rest.head?)
    (stops : ofWord (c :: rest) = 0) : ofWord (c :: other) = 0 := by
  have stopped : continuesWord c rest.head? = false := by
    cases ends : continuesWord c rest.head? with
    | false => rfl
    | true => simp [ofWord, ends] at stops
  -- A colon and the letter of a URI literal could only end the word with what is ahead of them.
  have apart (class_eq : LexState.starting c none = LexState.starting c rest.head?) :
      c ≠ ':' ∧ ¬(c = 'Q' ∧ rest.head? = some '{') := by
    simp only [continuesWord, Bool.or_eq_false_iff, Bool.and_eq_false_imp] at stopped
    refine ⟨?_, ?_⟩
    · -- Two colons are a pair, which a colon by itself does not start.
      rintro rfl
      have colon : rest.head? = some ':' := by simpa using stopped.1.2
      rw [colon] at class_eq
      exact absurd class_eq (by decide)
    · -- The letter starts a URI literal only in front of the brace.
      rintro ⟨rfl, brace⟩
      rw [brace] at class_eq
      exact absurd class_eq (by decide)
  have ends : continuesWord c other.head? = false := by
    rcases ahead with same | ⟨next, found, space⟩ | rfl
    · rw [same, stopped]
    · rw [found, LexState.starting_space space] at class_eq
      have alone := apart class_eq
      simp_all [continuesWord]
    · have alone := apart class_eq
      simp_all [continuesWord]
  simp [ofWord, ends]

/-- Whitespace that ends in front of a text ends in front of every text that starts with the same
character, or not at all. -/
theorem ofSpace_replace (same : other = [] ∨ other.head? = rest.head?) (more : List Char)
    (ends : ofSpace (more ++ rest) = more.length) : ofSpace (more ++ other) = more.length := by
  have stop (text : List Char) : ofSpace text = 0 ↔ text.head?.any isSpace = false := by
    cases text with
    | nil => simp [ofSpace]
    | cons c rest => cases space : isSpace c <;> simp [ofSpace, space]
  -- The induction is on the whitespace itself, which ends where the text behind it starts.
  induction more with
  | nil =>
    rcases same with rfl | same
    · rfl
    · exact (stop other).mpr (same ▸ (stop rest).mp ends)
  | cons c more ih =>
    cases space : isSpace c with
    | false => simp [ofSpace, space] at ends
    | true => simpa [ofSpace, space] using ih (by simpa [ofSpace, space] using ends)

/-- What a number can take in behind its first character. -/
inductive Figures : List Char → Prop
  | nil : Figures []
  | figure {c : Char} {more : List Char} (start : c.isDigit = true ∨ c = '.')
      (later : Figures more) : Figures (c :: more)
  | exponent {c next : Char} {more : List Char} (mark : c = 'e' ∨ c = 'E')
      (start : isExponentStart next = true) (later : Figures more) : Figures (c :: next :: more)

/-- A number takes in figures as far as they go. -/
theorem Figures.ofNumber_append {more : List Char} (figures : Figures more) (rest : List Char) :
    ofNumber (more ++ rest) = more.length + ofNumber rest := by
  induction figures with
  | nil => simp
  | figure start later ih =>
    rw [List.cons_append, ofNumber_figure start, ih, List.length_cons]
    omega
  | @exponent c next more mark start later ih =>
    -- The mark of an exponent is no figure by itself.
    have dark : ¬(c.isDigit = true ∨ c = '.') := by
      rcases mark with rfl | rfl <;> simp
    rw [List.cons_append, List.cons_append, ofNumber_exponent dark mark start, ih,
      List.length_cons, List.length_cons]
    omega

/-- A number that ends in front of a text takes in nothing but figures. -/
theorem figures_of_ofNumber : ∀ {more : List Char}, ofNumber (more ++ rest) = more.length →
    Figures more
  | [], _ => .nil
  | c :: more, ends => by
    by_cases figure : c.isDigit = true ∨ c = '.'
    · -- A figure is taken in, and the rest of the number goes on behind it.
      rw [List.cons_append, ofNumber_figure figure] at ends
      exact .figure figure (figures_of_ofNumber (Nat.succ.inj ends))
    · -- Only an exponent can carry the number on, and it comes with the character behind the mark.
      match more with
      | [] =>
        -- The mark of an exponent is never the last character of a number.
        by_cases exponent : (c = 'e' ∨ c = 'E') ∧ rest.head?.any isExponentStart = true
        · obtain ⟨next, found, start⟩ := (Option.any_eq_true _ _).mp exponent.2
          obtain ⟨more, rfl⟩ := List.head?_eq_some_iff.mp found
          simp [ofNumber_exponent figure exponent.1 start] at ends
        · simp [ofNumber_stop figure (by simpa using exponent)] at ends
      | next :: more =>
        by_cases exponent : (c = 'e' ∨ c = 'E') ∧ isExponentStart next = true
        · simp only [List.cons_append, ofNumber_exponent figure exponent.1 exponent.2,
            List.length_cons] at ends
          exact .exponent exponent.1 exponent.2 (figures_of_ofNumber (by omega))
        · have stops : ofNumber (c :: next :: (more ++ rest)) = 0 :=
            ofNumber_stop figure (by simpa using exponent)
          simp [stops] at ends

/-- A number ends in front of a text exactly if it is of figures that do not go on in the text. -/
theorem ofNumber_append_eq_length_iff {more : List Char} :
    ofNumber (more ++ rest) = more.length ↔ Figures more ∧ ofNumber rest = 0 := by
  -- Figures are passed over one by one, so that the number is longer by what goes on behind them.
  constructor
  · intro ends
    have figures := figures_of_ofNumber ends
    have length := figures.ofNumber_append rest
    exact ⟨figures, by omega⟩
  · rintro ⟨figures, stops⟩
    rw [figures.ofNumber_append, stops, Nat.add_zero]

/-- A number that ends in front of a text ends in front of every text that ends lexemes alike. -/
theorem ofNumber_replace (alike : EndsAlike rest other) (more : List Char)
    (ends : ofNumber (more ++ rest) = more.length) : ofNumber (more ++ other) = more.length := by
  -- The figures stay, and what stops a number in one text stops it in the other.
  obtain ⟨figures, stops⟩ := ofNumber_append_eq_length_iff.mp ends
  exact ofNumber_append_eq_length_iff.mpr ⟨figures, alike.number stops⟩

/-- What carries on a word carries it on in front of whitespace too. -/
theorem continuesWord_space {c next : Char} {ahead : Option Char} (space : isSpace next = true)
    (continues : continuesWord c ahead = true) : continuesWord c (some next) = true := by
  -- Whitespace is neither the colon nor the brace that could end the word.
  have colon : next ≠ ':' := by
    rintro rfl
    cases space
  have brace : next ≠ '{' := by
    rintro rfl
    cases space
  simp only [continuesWord, Option.some.injEq, brace, Bool.or_eq_true, Bool.and_eq_true,
    decide_eq_true_eq, Bool.not_eq_true', Bool.or_eq_false_iff,
    Bool.and_eq_false_imp] at continues ⊢
  grind

/-- What carries on a word carries it on at the end of a text too. -/
theorem continuesWord_none {c : Char} {ahead : Option Char}
    (continues : continuesWord c ahead = true) : continuesWord c none = true := by
  -- A colon is the only character that looks ahead, and nothing ahead is no second colon.
  simp only [continuesWord, Bool.or_eq_true, Bool.and_eq_true, decide_eq_true_eq,
    Bool.not_eq_true', Bool.or_eq_false_iff, Bool.and_eq_false_imp] at continues ⊢
  grind

/-- A word that ends in front of a text ends in front of every text that ends lexemes alike. -/
theorem ofWord_replace (alike : EndsAlike rest other) (more : List Char)
    (ends : ofWord (more ++ rest) = more.length) : ofWord (more ++ other) = more.length := by
  induction more with
  | nil => exact alike.word ends
  | cons c more ih =>
    rw [List.cons_append, ofWord] at ends ⊢
    -- What stands ahead of the last character decides whether the word takes that in.
    have continued : continuesWord c (more ++ rest).head? = true := by
      cases continues : continuesWord c (more ++ rest).head? with
      | true => rfl
      | false =>
        rw [continues] at ends
        exact absurd ends (Nat.succ_ne_zero _).symm
    have continues : continuesWord c (more ++ other).head? = true := by
      rcases alike.head.append more with same | ⟨next, found, space⟩ | nothing
      · rw [same, continued]
      · rw [found, continuesWord_space space continued]
      · rw [nothing, List.head?_nil, continuesWord_none continued]
    rw [if_pos continued] at ends
    rw [if_pos continues, ih (Nat.succ.inj ends), List.length_cons]

/-- A string literal takes in a character at least, if it ends. -/
theorem ofString?_ne_zero (mark : Char) (text : List Char) : ofString? mark text ≠ some 0 := by
  -- Whatever the first character is, it is counted: alone, as one of two marks, or as the end.
  cases text with
  | nil => simp [ofString?]
  | cons c rest =>
    by_cases inner : c = mark
    · subst inner
      by_cases doubled : rest.head? = some c
      · obtain ⟨more, rfl⟩ := List.head?_eq_some_iff.mp doubled
        simp [ofString?_doubled]
      · simp [ofString?_mark doubled]
    · simp [ofString?_inner inner]

/-- A string literal that ends in front of a text ends in front of every text that does not start
with its mark, unless the text itself does. -/
theorem ofString?_replace {mark : Char} (apart : rest.head? ≠ some mark → other.head? ≠ some mark) :
    ∀ more : List Char, ofString? mark (more ++ rest) = some more.length →
      ofString? mark (more ++ other) = some more.length
  | [], ends => absurd ends (ofString?_ne_zero mark rest)
  | c :: more, ends => by
    by_cases inner : c = mark
    · subst inner
      -- Two marks in a row are in the literal, and a single one can only be the last character.
      match more with
      | [] =>
        -- If the text behind the mark started with another one, the literal would go on.
        refine ofString?_mark (apart fun doubled => ?_)
        obtain ⟨more, rfl⟩ := List.head?_eq_some_iff.mp doubled
        simp [ofString?_doubled] at ends
      | next :: more =>
        by_cases doubled : next = c
        · subst doubled
          simp only [List.cons_append, ofString?_doubled, List.length_cons] at ends ⊢
          rw [ofString?_replace apart more (by simpa using ends)]
          rfl
        · rw [List.cons_append, ofString?_mark (by simpa using doubled)] at ends
          simp at ends
    · simp only [List.cons_append, ofString?_inner inner, List.length_cons] at ends ⊢
      rw [ofString?_replace apart more (by simpa using ends)]
      rfl

/-- A URI literal takes in a character at least, if it ends. -/
theorem ofUriLiteral?_ne_zero (text : List Char) : ofUriLiteral? text ≠ some 0 := by
  -- The brace that ends the literal counts, and so does every character in front of it.
  cases text with
  | nil => simp [ofUriLiteral?]
  | cons c rest =>
    rw [ofUriLiteral?]
    split <;> simp

/-- A URI literal ends where it ends, whatever stands behind that. -/
theorem ofUriLiteral?_replace (more : List Char)
    (ends : ofUriLiteral? (more ++ rest) = some more.length) :
    ofUriLiteral? (more ++ other) = some more.length := by
  induction more with
  | nil => exact absurd ends (ofUriLiteral?_ne_zero rest)
  | cons c more ih =>
    simp only [List.cons_append, ofUriLiteral?] at ends ⊢
    by_cases brace : c = '\x7d'
    · -- The brace is the last character, so that nothing of the literal is behind it.
      rw [if_pos brace] at ends ⊢
      exact ends
    · rw [if_neg brace] at ends ⊢
      rw [ih (by simpa using ends)]
      rfl

/-- A comment takes in two characters at least and no more than there are, if it ends. -/
theorem ofComment?_bounds {text : List Char} {nested taken : Nat}
    (ends : ofComment? nested text = some taken) : 2 ≤ taken ∧ taken ≤ text.length := by
  induction text generalizing nested taken with
  | nil => simp [ofComment?] at ends
  | cons c rest ih =>
    -- Only the colon of the last bracket ends the comment, and every other character comes before
    -- it.
    have later {nested : Nat} (ends : (ofComment? nested rest).map (· + 1) = some taken) :
        2 ≤ taken ∧ taken ≤ (c :: rest).length := by
      obtain ⟨inner, found, rfl⟩ := Option.map_eq_some_iff.mp ends
      obtain ⟨least, most⟩ := ih found
      exact ⟨Nat.le_succ_of_le least, Nat.succ_le_succ most⟩
    rw [ofComment?] at ends
    split at ends
    · exact later ends
    · split at ends
      · rename_i closes
        split at ends
        · -- The bracket behind the colon is the second character.
          obtain ⟨more, rfl⟩ := List.head?_eq_some_iff.mp (by simpa using closes : _ ∧ _).2
          obtain rfl := Option.some.inj ends
          simp
        · exact later ends
      · exact later ends

/-- A comment ends where it ends, whatever stands behind that. -/
theorem ofComment?_replace (nested : Nat) (more : List Char)
    (ends : ofComment? nested (more ++ rest) = some more.length) :
    ofComment? nested (more ++ other) = some more.length := by
  induction more generalizing nested with
  | nil => simpa using (ofComment?_bounds ends).1
  | cons c more ih =>
    cases more with
    | nil => simpa using (ofComment?_bounds ends).1
    | cons next more =>
      -- Both texts show the same character ahead, so that the comment goes on or ends alike.
      have later {nested : Nat}
          (ends : (ofComment? nested (next :: more ++ rest)).map (· + 1) =
            some (c :: next :: more).length) :
          (ofComment? nested (next :: more ++ other)).map (· + 1) =
            some (c :: next :: more).length := by
        rw [ih nested (by simpa using ends)]
        rfl
      rw [List.cons_append, ofComment?, List.cons_append, List.head?_cons] at ends ⊢
      split at ends
      · -- Another comment is opened inside.
        rename_i opens
        rw [if_pos opens]
        exact later ends
      · rename_i opens
        rw [if_neg opens]
        split at ends
        · rename_i closes
          rw [if_pos closes]
          split at ends
          · -- The outermost comment is closed, with the bracket as its last character.
            rename_i last
            rw [if_pos last]
            exact ends
          · -- A comment inside is closed.
            rename_i last
            rw [if_neg last]
            exact later ends
        · rename_i closes
          rw [if_neg closes]
          exact later ends

end Extent

/-- Whitespace ends what any other text ends. -/
theorem EndsAlike.space {c : Char} (space : isSpace c = true) (rest other : List Char) :
    EndsAlike rest (c :: other) where
  -- Whitespace starts a lexeme of its own, and neither numbers nor words take it in.
  head := .space c rfl space
  number _ := (Extent.ofSpace_stop space other).1
  word _ := (Extent.ofSpace_stop space other).2

/-- The end of a text ends what any other text ends. -/
theorem EndsAlike.nil (rest : List Char) : EndsAlike rest [] where
  -- At the end there is nothing that could be taken in.
  head := .ends rfl
  number _ := rfl
  word _ := rfl

/-- A character ends what it ended before, if it still starts the same class of lexeme and what is
ahead of it becomes whitespace or nothing at most. -/
theorem EndsAlike.cons {c : Char} {rest other : List Char}
    (class_eq : LexState.starting c other.head? = LexState.starting c rest.head?)
    (ahead : StartsAlike rest other) : EndsAlike (c :: rest) (c :: other) where
  -- The first character is the same, so only what looks ahead of it has to be compared.
  head := .same rfl
  number := Extent.ofNumber_ahead ahead
  word := Extent.ofWord_ahead ahead class_eq

/-- An opening bracket ends every lexeme, whatever stands behind it. -/
theorem EndsAlike.opener (bracket : Bracket) (rest other : List Char) :
    EndsAlike (bracket.opener :: rest) (bracket.opener :: other) where
  head := .same rfl
  number _ := Extent.ofNumber_stop (by cases bracket <;> decide)
    (by cases bracket <;> simp [Bracket.opener])
  word _ := by
    -- A bracket is a delimiter, and none of the marks that a word takes in.
    have ends : Extent.continuesWord bracket.opener other.head? = false := by
      cases bracket <;> rfl
    simp [Extent.ofWord, ends]

/-- A lexeme of some class that consists of a character and some more, if a text stands behind
it. -/
structure EndsBefore (c : Char) (more : List Char) (state : LexState) (rest : List Char) :
    Prop where
  /-- The first two characters are those of the class. -/
  class_eq : LexState.starting c (more ++ rest).head? = state
  /-- The lexeme reaches as far as the text behind it. -/
  extent_eq : state.extent? (more ++ rest) = some more.length

namespace EndsBefore

variable {c : Char} {more rest other : List Char} {state : LexState}

/-- A lexeme of one character has its class without anything ahead, too. -/
theorem starting_none (ends : EndsBefore c [] state rest) : LexState.starting c none = state := by
  -- What could need the character ahead for its class would also take it in.
  obtain ⟨class_eq, extent_eq⟩ := ends
  have starts := LexState.starts_starting c rest.head?
  rw [List.nil_append] at class_eq extent_eq
  rw [class_eq] at starts
  cases starts with
  | space space => simp [LexState.starting, space]
  | comment => simpa using (Extent.ofComment?_bounds extent_eq).1
  | uriLiteral => exact absurd extent_eq (Extent.ofUriLiteral?_ne_zero rest)
  | emptyBracket => simp [LexState.extent?] at extent_eq
  | opener bracket opens =>
    subst opens
    simp [LexState.starting_opener]
  | closer bracket closes =>
    subst closes
    exact LexState.starting_closer bracket none
  | mark quote => exact absurd extent_eq (Extent.ofString?_ne_zero quote.mark rest)
  | operator => simp [LexState.extent?] at extent_eq
  | number start =>
    rcases start with digit | ⟨rfl, digit⟩
    · obtain ⟨plain, dark, letter⟩ := plain_of_isDigit digit
      have unsigned : ¬(c = '+' ∨ c = '-') := by
        rintro (rfl | rfl) <;> cases digit
      rw [LexState.starting_plain plain]
      simp [dark, letter, digit, unsigned, pairAhead]
    · -- The digit behind a point would belong to the number.
      obtain ⟨next, found, figure⟩ := (Option.any_eq_true _ _).mp digit
      obtain ⟨more, rfl⟩ := List.head?_eq_some_iff.mp found
      simp [LexState.extent?, Extent.ofNumber_figure (.inl figure)] at extent_eq
  | separator listed =>
    obtain ⟨plain, dark, letter, digit⟩ := plain_of_separator listed
    rw [LexState.starting_plain plain]
    have listed : c ∈ separators := by simpa using listed
    simp [dark, letter, digit, listed, pairAhead, digitAhead]
  | word sigil plain dark single code =>
    -- The tests that look ahead have failed with the character ahead, so they fail without it.
    rw [LexState.starting_plain plain] at class_eq ⊢
    rw [if_neg (by simp [dark]), if_neg code] at class_eq
    rw [if_neg (by simp [dark]), if_neg (by simp)]
    grind [pairAhead, digitAhead]

/-- A lexeme also ends in front of every text that ends lexemes alike, if whitespace does not come
to stand behind whitespace. -/
theorem replace (ends : EndsBefore c more state rest) (alike : EndsAlike rest other)
    (apart : state = .whitespace → other = [] ∨ other.head? = rest.head?) :
    EndsBefore c more state other where
  class_eq := by
    rcases alike.head.append more with same | ⟨next, found, space⟩ | nothing
    · rw [same, ends.class_eq]
    · -- Whitespace is only ahead of a lexeme of one character.
      cases more with
      | nil => rw [found, LexState.starting_space space, ends.starting_none]
      | cons second more => exact ends.class_eq
    · -- So is the end of the text.
      obtain ⟨rfl, rfl⟩ := List.append_eq_nil_iff.mp nothing
      exact ends.starting_none
  extent_eq := by
    have extent_eq := ends.extent_eq
    cases state with
    | whitespace =>
      exact congrArg some (Extent.ofSpace_replace (apart rfl) more (Option.some.inj extent_eq))
    | number => exact congrArg some (Extent.ofNumber_replace alike more (Option.some.inj extent_eq))
    | word => exact congrArg some (Extent.ofWord_replace alike more (Option.some.inj extent_eq))
    | quoted quote =>
      refine Extent.ofString?_replace (fun apart => ?_) more extent_eq
      rcases alike.head with same | ⟨next, found, space⟩ | rfl
      · rwa [same]
      · -- Whitespace is no quotation mark.
        intro mark
        obtain rfl : next = quote.mark := Option.some.inj (found.symm.trans mark)
        cases quote <;> cases space
      · simp
    | uriLiteral => exact Extent.ofUriLiteral?_replace more extent_eq
    | comment => exact Extent.ofComment?_replace 1 more extent_eq
    | _ => exact extent_eq

/-- A comment that ends does so whatever stands behind it. -/
theorem comment (ends : EndsBefore c more .comment rest) (other : List Char) :
    EndsBefore c more .comment other where
  class_eq := by
    -- The colon behind the first bracket belongs to the comment.
    cases more with
    | nil => simpa using (Extent.ofComment?_bounds ends.extent_eq).1
    | cons second more => exact ends.class_eq
  extent_eq := Extent.ofComment?_replace 1 more ends.extent_eq

end EndsBefore

end XQueryLexer
