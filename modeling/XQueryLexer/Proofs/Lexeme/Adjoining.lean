import XQueryLexer.Proofs.Naming.Skeleton

/-! An operator of two characters is split between two tokens only where a word has taken in its
colon. -/

namespace XQueryLexer

namespace Extent

variable {rest : List Char}

/-- Of the separators, a number takes in only points and signs. -/
theorem Figures.of_separator {more : List Char} (figures : Figures more) :
    ∀ c ∈ more, separators.contains c = true → c = '.' ∨ c = '+' ∨ c = '-' := by
  -- No digit is a separator, and no mark of an exponent is one.
  have digit {c : Char} (listed : separators.contains c = true) : ¬c.isDigit = true := by
    simp [(plain_of_separator listed).2.2.2]
  induction figures with
  | nil => simp
  | figure start later ih =>
    refine List.forall_mem_cons.mpr ⟨fun listed => .inl ?_, ih⟩
    exact start.resolve_left (digit listed)
  | exponent mark start later ih =>
    refine List.forall_mem_cons.mpr ⟨?_, List.forall_mem_cons.mpr ⟨?_, ih⟩⟩
    · intro listed
      rcases mark with rfl | rfl <;> cases listed
    · intro listed
      simp only [isExponentStart, Bool.or_eq_true, decide_eq_true_eq] at start
      rcases start with (figure | plus) | minus
      · exact absurd figure (digit listed)
      · exact .inr (.inl plus)
      · exact .inr (.inr minus)

/-- A word that ends in front of a text does not go on in the text, and its last character carries a
word on in front of the text. -/
theorem ofWord_ends {more : List Char} (ends : ofWord (more ++ rest) = more.length) :
    ofWord rest = 0 ∧ ∀ last ∈ more.getLast?, continuesWord last rest.head? = true := by
  -- The reader has gone on at every character of the word, and the induction keeps the last one.
  induction more with
  | nil => exact ⟨ends, by simp⟩
  | cons c more ih =>
    rw [List.cons_append, ofWord] at ends
    have continues : continuesWord c (more ++ rest).head? = true := by
      cases continued : continuesWord c (more ++ rest).head? with
      | true => rfl
      | false =>
        rw [continued] at ends
        exact absurd ends (Nat.succ_ne_zero _).symm
    rw [if_pos continues] at ends
    obtain ⟨stops, inner⟩ := ih (Nat.succ.inj ends)
    refine ⟨stops, ?_⟩
    cases more with
    | nil => simpa using continues
    | cons next more => simpa using inner

end Extent

/-- Which characters an operator of two characters starts with, and which ones go with a point and
with a colon. -/
theorem pairedSeparators_cases {c next : Char}
    (listed : pairedSeparators.contains (c, next) = true) :
    (c ≠ '+' ∧ c ≠ '-') ∧ (c = '.' → next = '.') ∧
      (c = ':' → next = '*' ∨ next = ':' ∨ next = '=') := by
  -- Each of the listed operators is looked at on its own.
  simp only [pairedSeparators, List.contains_eq_mem, List.mem_cons, List.not_mem_nil, or_false,
    decide_eq_true_eq, Prod.mk.injEq] at listed
  rcases listed with h | h | h | h | h | h | h | h | h | h | h | h | h <;>
    obtain ⟨rfl, rfl⟩ := h <;> decide

/-- The two characters of an operator start an operator. -/
theorem LexState.starting_of_listed {c next : Char}
    (listed : pairedSeparators.contains (c, next) = true) : starting c (some next) = pair := by
  -- None of the tests that come before finds the first character of an operator.
  obtain ⟨plain, dark, letter, -⟩ := plain_of_separator (separators_of_pair listed).1
  obtain ⟨⟨plus, minus⟩, -⟩ := pairedSeparators_cases listed
  have ahead : pairAhead c (some next) = true := (pairAhead_eq c (some next)).trans listed
  rw [starting_plain plain]
  simp [dark, letter, plus, minus, ahead]

/-- A separator carries a word on only if it is one of three characters. -/
theorem Extent.eq_of_continuesWord {c : Char} {ahead : Option Char}
    (continues : continuesWord c ahead = true) (single : separators.contains c = true) :
    c = '-' ∨ c = '.' ∨ (c = ':' ∧ ahead ≠ some ':') := by
  -- A separator is a delimiter, and those are taken in by a rule of their own only.
  have delimits : isDelimiter c = true := by
    cases free : isDelimiter c with
    | true => rfl
    | false =>
      rw [(LexState.isDelimiter_eq_false_iff.mp free).2.2] at single
      cases single
  simpa [continuesWord, delimits, or_assoc] using continues

/-- Whether a lexeme of a class is neither enclosed in delimiters nor layout, and is no operator of
two characters itself. -/
def LexState.isExposed : LexState → Bool
  | quoted _ | uriLiteral | comment | whitespace | pair => false
  | _ => true

namespace EndsBefore

variable {c last first : Char} {more rest : List Char} {state : LexState}

/-- A separator takes in the character behind it if the two are an operator. -/
theorem not_listed_of_separator (ends : EndsBefore c more .separator rest)
    (reaches : last ∈ (c :: more).getLast?) (starts : first ∈ rest.head?) :
    ¬pairedSeparators.contains (last, first) = true := by
  intro listed
  obtain ⟨class_eq, extent_eq⟩ := ends
  obtain rfl : more = [] := List.eq_nil_of_length_eq_zero (Option.some.inj extent_eq).symm
  obtain rfl : c = last := by simpa using reaches
  -- The class of the lexeme would be that of the operator.
  rw [List.nil_append, Option.mem_def.mp starts, LexState.starting_of_listed listed] at class_eq
  cases class_eq

/-- A number takes in a point behind its last point. -/
theorem not_listed_of_number (ends : EndsBefore c more .number rest)
    (reaches : last ∈ (c :: more).getLast?) (starts : first ∈ rest.head?) :
    ¬pairedSeparators.contains (last, first) = true := by
  intro listed
  obtain ⟨class_eq, extent_eq⟩ := ends
  obtain ⟨figures, stops⟩ := Extent.ofNumber_append_eq_length_iff.mp (Option.some.inj extent_eq)
  obtain ⟨⟨plus, minus⟩, pointed, -⟩ := pairedSeparators_cases listed
  have single := (separators_of_pair listed).1
  -- No other separator than a point can be the last character of the number.
  have point : last = '.' := by
    rcases List.mem_cons.mp (List.mem_of_getLast? reaches) with rfl | inner
    · have start := LexState.starts_starting last (more ++ rest).head?
      rw [class_eq] at start
      cases start with
      | number start =>
        rcases start with digit | ⟨point, -⟩
        · rw [(plain_of_separator single).2.2.2] at digit
          cases digit
        · exact point
    · rcases figures.of_separator last inner single with point | sign | sign
      · exact point
      · exact absurd sign plus
      · exact absurd sign minus
  -- Another point follows, which the number would have taken in.
  obtain rfl := pointed point
  obtain ⟨behind, rfl⟩ := List.head?_eq_some_iff.mp starts
  rw [Extent.ofNumber_figure (.inr rfl)] at stops
  cases stops

/-- A word takes in points, and it takes in colons that no other one follows. -/
theorem colon_of_word {sigil : Sigil} (ends : EndsBefore c more (.word sigil) rest)
    (reaches : last ∈ (c :: more).getLast?) (starts : first ∈ rest.head?)
    (listed : pairedSeparators.contains (last, first) = true) :
    last = ':' ∧ (first = '*' ∨ first = '=') := by
  obtain ⟨class_eq, extent_eq⟩ := ends
  obtain ⟨stops, inner⟩ := Extent.ofWord_ends (Option.some.inj extent_eq)
  obtain ⟨⟨plus, minus⟩, pointed, coloned⟩ := pairedSeparators_cases listed
  have single := (separators_of_pair listed).1
  have start := LexState.starts_starting c (more ++ rest).head?
  rw [class_eq] at start
  rw [List.getLast?_cons, Option.mem_some] at reaches
  cases ended : more.getLast? with
  | none =>
    -- The first character of a word is no separator.
    rw [ended, Option.getD_none] at reaches
    subst reaches
    cases start with
    | word _ _ _ apart =>
      rw [apart] at single
      cases single
  | some own =>
    rw [ended, Option.getD_some] at reaches
    subst reaches
    have continues := inner own ended
    obtain ⟨behind, rfl⟩ := List.head?_eq_some_iff.mp starts
    rcases Extent.eq_of_continuesWord continues single with dash | point | ⟨colon, apart⟩
    · exact absurd dash minus
    · -- The word would have taken in the point behind it as well.
      obtain rfl := pointed point
      simp [Extent.ofWord, Extent.continuesWord] at stops
    · have apart : first ≠ ':' := fun again => apart (congrArg some again)
      rcases coloned colon with star | again | equal
      · exact ⟨colon, .inl star⟩
      · exact absurd again apart
      · exact ⟨colon, .inr equal⟩

/-- If the last character of a lexeme and the character behind it are an operator of two characters,
then the lexeme is a word that ends with the colon of the operator, unless it is enclosed or layout
or an operator itself. -/
theorem colon_of_listed (ends : EndsBefore c more state rest) (exposed : state.isExposed = true)
    (reaches : last ∈ (c :: more).getLast?) (starts : first ∈ rest.head?)
    (listed : pairedSeparators.contains (last, first) = true) :
    (∃ sigil, state = .word sigil) ∧ last = ':' ∧ (first = '*' ∨ first = '=') := by
  have single := (separators_of_pair listed).1
  have plain := (plain_of_separator single).1
  have start := LexState.starts_starting c (more ++ rest).head?
  rw [ends.class_eq] at start
  -- A bracket is all of its lexeme, and it is no separator.
  have whole (bracket : state.isBracket = true) : last = c := by
    have nothing : state.extent? (more ++ rest) = some 0 := by
      cases state <;> first | rfl | cases bracket
    obtain rfl : more = [] :=
      List.eq_nil_of_length_eq_zero (Option.some.inj (ends.extent_eq.symm.trans nothing))
    simpa [eq_comm] using reaches
  cases start with
  | opener bracket opens =>
    rw [whole rfl, opens] at plain
    cases bracket <;> cases plain.opener
  | closer bracket closes =>
    rw [whole rfl, closes] at plain
    cases bracket <;> cases plain.closer
  | number start => exact absurd listed (ends.not_listed_of_number reaches starts)
  | separator start => exact absurd listed (ends.not_listed_of_separator reaches starts)
  | word sigil => exact ⟨⟨sigil, rfl⟩, ends.colon_of_word reaches starts listed⟩
  | _ => cases exposed

end EndsBefore

/-- The last character of a token and the first character of the next one are an operator of two
characters. -/
def Token.SplitsOperator (token next : Token) : Prop :=
  ∃ last ∈ token.value.toList.getLast?, ∃ first ∈ next.value.toList.head?,
    pairedSeparators.contains (last, first) = true

/-- The first piece of a text starts with the first character of the text. -/
theorem Piece.head?_value {piece : Piece} {others : List Piece} {text : List Char}
    (shown : ofText text = piece :: others) : piece.value.toList.head? = text.head? := by
  -- Each piece of a text starts where the text that is left starts.
  cases text with
  | nil => simp [ofText] at shown
  | cons c rest =>
    rw [ofText] at shown
    obtain ⟨rfl, -⟩ := List.cons.inj shown
    rw [String.toList_ofList]
    rfl

/-- An operator of two characters at the start of a text is the first piece of the text. -/
theorem Piece.eq_pair_of_listed {piece : Piece} {others : List Piece} {text : List Char}
    {c next : Char} (shown : ofText text = piece :: others)
    (listed : pairedSeparators.contains (c, next) = true) (starts : [c, next] <+: text) :
    piece = ⟨.ofList [c, next], .pair⟩ := by
  -- The operator ends behind its second character, whatever follows.
  obtain ⟨rest, rfl⟩ := starts
  have first : ofText (c :: ([next] ++ rest)) = ⟨.ofList [c, next], .pair⟩ :: ofText rest :=
    ofText_of_endsBefore ⟨LexState.starting_of_listed listed, rfl⟩
  exact (List.cons.inj (shown.symm.trans first)).1

section Source

variable {source : String} {options : Options} {before after : List Token} {token next : Token}

/-- If an operator of two characters is split between two tokens, then the first one is a word that
has taken in a colon, unless it is enclosed or layout or an operator itself. -/
theorem Token.SplitsOperator.colon (splits : token.SplitsOperator next)
    (split : Forest.items (analyse source options).forest = before ++ token :: next :: after)
    (exposed : token.state.isExposed = true) : (∃ sigil, token.state = .word sigil) ∧
      token.value.toList.getLast? = some ':' ∧
        (next.value.toList.head? = some '*' ∨ next.value.toList.head? = some '=') := by
  obtain ⟨last, reaches, first, starts, listed⟩ := splits
  obtain ⟨c, more, state, rest, -, ends, piece_eq, later⟩ :=
    Piece.exists_endsBefore (Piece.ofText_later split) (by simp)
  obtain ⟨value, state_eq⟩ := Piece.mk.inj piece_eq
  -- The next token starts with the character behind the lexeme.
  have head := Piece.head?_value later
  rw [value, String.toList_ofList] at reaches
  rw [state_eq] at exposed
  obtain ⟨word, rfl, follows⟩ := ends.colon_of_listed exposed reaches (head ▸ starts) listed
  rw [value, state_eq, String.toList_ofList]
  refine ⟨word, reaches, ?_⟩
  rw [Option.mem_def.mp starts]
  simpa using follows

/-- An operator of two characters that stands where a token starts is that token. -/
theorem Token.pair_of_listed {first second : Char}
    (split : Forest.items (analyse source options).forest = before ++ token :: after)
    (listed : pairedSeparators.contains (first, second) = true)
    (starts : [first, second] <+: (Token.text (token :: after)).toList) :
    token.value = .ofList [first, second] ∧ token.state = .pair := by
  -- The text from the token on is read as if nothing stood before it.
  have shown := Piece.ofText_later split
  exact Piece.mk.inj (Piece.eq_pair_of_listed shown listed starts)

end Source

/-- Between two tokens of a source an operator of two characters is split exactly if it starts with
a colon and a word has taken this in, unless the first token is enclosed or layout or an operator
itself. And wherever a token starts, an operator that stands there is a token of its own. -/
theorem splitsOperator_iff (source : String) (options : Options) :
    (∀ {before after : List Token} {token next : Token},
      Forest.items (analyse source options).forest = before ++ token :: next :: after →
      token.state.isExposed = true →
        (token.SplitsOperator next ↔ (∃ sigil, token.state = .word sigil) ∧
          token.value.toList.getLast? = some ':' ∧
            (next.value.toList.head? = some '*' ∨ next.value.toList.head? = some '='))) ∧
    ∀ {before after : List Token} {token : Token} (first second : Char),
      Forest.items (analyse source options).forest = before ++ token :: after →
      pairedSeparators.contains (first, second) = true →
      [first, second] <+: (Token.text (token :: after)).toList →
        token.value = .ofList [first, second] ∧ token.state = .pair := by
  refine ⟨fun {before after token next} split exposed => ⟨fun splits => ?_, ?_⟩, ?_⟩
  · exact splits.colon split exposed
  · -- Both operators that start with a colon are listed.
    rintro ⟨-, last, star | equal⟩
    · exact ⟨':', last, '*', star, rfl⟩
    · exact ⟨':', last, '=', equal, rfl⟩
  · intro before after token first second split listed starts
    exact Token.pair_of_listed split listed starts

/-- Behind the digits of a number an operator is a token of its own. -/
theorem not_splitsOperator_of_number :
    Forest.items (analyse "1.5<=x").forest =
        [] ++ .ofState "1.5" .number ⟨0, 3⟩ :: .ofState "<=" .pair ⟨3, 5⟩ ::
          [.ofState "x" (.word .bare) ⟨5, 6⟩] ∧
      LexState.number.isExposed = true ∧
      ¬(Token.ofState "1.5" .number ⟨0, 3⟩).SplitsOperator (.ofState "<=" .pair ⟨3, 5⟩) ∧
      pairedSeparators.contains ('<', '=') = true ∧ "<=" = .ofList ['<', '='] := by
  have items : Forest.items (analyse "1.5<=x").forest =
      [] ++ .ofState "1.5" .number ⟨0, 3⟩ :: .ofState "<=" .pair ⟨3, 5⟩ ::
        [.ofState "x" (.word .bare) ⟨5, 6⟩] := by
    decide +kernel
  obtain ⟨splits, stands⟩ := splitsOperator_iff "1.5<=x" {}
  -- The number has no part in the text that the operator starts.
  have rest : Forest.items (analyse "1.5<=x").forest =
      [.ofState "1.5" .number ⟨0, 3⟩] ++ .ofState "<=" .pair ⟨3, 5⟩ ::
        [.ofState "x" (.word .bare) ⟨5, 6⟩] := items
  refine ⟨items, rfl, ?_, rfl, (stands '<' '=' rest rfl ?_).1⟩
  · intro split
    obtain ⟨⟨sigil, word⟩, -⟩ := (splits items rfl).mp split
    cases word
  · decide +kernel

/-- A colon in front of another character than a colon belongs to the word before it. -/
theorem splitsOperator_of_colon :
    Forest.items (analyse "$a:=1").forest =
        [] ++ .ofState "$a:" (.word .dollar) ⟨0, 3⟩ :: .ofState "=" .separator ⟨3, 4⟩ ::
          [.ofState "1" .number ⟨4, 5⟩] ∧
      (LexState.word .dollar).isExposed = true ∧
      (Token.ofState "$a:" (.word .dollar) ⟨0, 3⟩).SplitsOperator
        (.ofState "=" .separator ⟨3, 4⟩) ∧
      Forest.items (analyse "ns:*").forest =
        [] ++ .ofState "ns:" (.word .bare) ⟨0, 3⟩ :: .ofState "*" .separator ⟨3, 4⟩ :: [] ∧
      (LexState.word .bare).isExposed = true ∧
      (Token.ofState "ns:" (.word .bare) ⟨0, 3⟩).SplitsOperator
        (.ofState "*" .separator ⟨3, 4⟩) := by
  -- In both sources the word ends with the colon that the next token would need.
  refine ⟨by decide +kernel, rfl, ⟨':', ?_, '=', ?_, rfl⟩, by decide +kernel, rfl,
    ⟨':', ?_, '*', ?_, rfl⟩⟩
  all_goals decide +kernel

end XQueryLexer
