import XQueryLexer.Proofs.Lexeme.Layout

/-! Words with layout between them are read as these words, whatever the layout is. -/

namespace XQueryLexer

/-- Whether a character starts a name, and carries one on, whatever is ahead of it. -/
def isNameChar (c : Char) : Bool :=
  !Extent.isDelimiter c && !c.isDigit && c ≠ 'Q' && c ≠ '$' && c ≠ '@'

/-- Whether a text is a name, whatever ends it. -/
def isPlainWord (word : String) : Bool :=
  !word.toList.isEmpty && word.toList.all isNameChar

/-- A name starts with a name character. -/
theorem LexState.starting_of_isNameChar {c : Char} (name : isNameChar c = true)
    (ahead : Option Char) : starting c ahead = .word .bare := by
  simp only [isNameChar, Bool.and_eq_true, Bool.not_eq_true', decide_eq_true_eq] at name
  obtain ⟨⟨⟨⟨free, figure⟩, letter⟩, dollar⟩, atSign⟩ := name
  -- What is no delimiter fails every test that comes before the one for words.
  obtain ⟨plain, dark, single⟩ := isDelimiter_eq_false_iff.mp free
  have different (other : Char) (listed : separators.contains other = true) : c ≠ other := by
    rintro rfl
    simp only [listed, Bool.true_eq_false] at single
  have alone := pairAhead_eq_false single ahead
  have unlisted : c ∉ separators := by simpa using single
  rw [starting_plain plain]
  simp [dark, letter, alone, figure, unlisted, dollar, atSign, different '+' rfl,
    different '-' rfl, different '.' rfl]

namespace Extent

/-- A word takes in every name character. -/
theorem continuesWord_of_isNameChar {c : Char} (name : isNameChar c = true)
    (ahead : Option Char) : continuesWord c ahead = true := by
  -- The character starts a word, and whatever does that carries words on too.
  have starts := LexState.starts_starting c ahead
  rw [LexState.starting_of_isNameChar name] at starts
  exact LexState.continuesWord_of_starts starts

/-- A word takes in name characters one after the other. -/
theorem ofWord_append {more : List Char} (names : ∀ c ∈ more, isNameChar c = true)
    (rest : List Char) : ofWord (more ++ rest) = more.length + ofWord rest := by
  -- Each name character is counted, whatever stands behind it.
  induction more with
  | nil => simp
  | cons c more ih =>
    obtain ⟨name, later⟩ := List.forall_mem_cons.mp names
    rw [List.cons_append, ofWord, if_pos (continuesWord_of_isNameChar name _), ih later,
      List.length_cons]
    omega

/-- The first character of layout ends every word, whatever is behind it. -/
theorem ofWord_of_layout {c : Char} {ahead : Option Char}
    (hidden : (LexState.starting c ahead).isReal = false) (rest : List Char) :
    ofWord (c :: rest) = 0 := by
  have starts := LexState.starts_starting c ahead
  generalize LexState.starting c ahead = state at starts hidden
  -- Layout is whitespace, or it starts with a bracket.
  cases starts with
  | space space => exact (ofSpace_stop space rest).2
  | comment round colon =>
    subst round
    rfl
  | _ => simp [LexState.isReal] at hidden

end Extent

namespace Piece

/-- The piece that a name is. -/
def ofName (word : String) : Piece :=
  ⟨word, .word .bare⟩

/-- A name in front of a text that does not carry it on is read as the name. -/
theorem reals_word {word : String} (plain : isPlainWord word = true) {rest : List Char}
    (ends : Extent.ofWord rest = 0) :
    reals (word.toList ++ rest) = ofName word :: reals rest := by
  simp only [isPlainWord, Bool.and_eq_true, Bool.not_eq_true', List.all_eq_true] at plain
  obtain ⟨filled, names⟩ := plain
  cases chars : word.toList with
  | nil => simp [chars] at filled
  | cons c more =>
    -- The word takes in all its characters and nothing of what is behind them.
    rw [chars] at names
    obtain ⟨first, later⟩ := List.forall_mem_cons.mp names
    have reaches : EndsBefore c more (.word .bare) rest := by
      refine ⟨LexState.starting_of_isNameChar first _, congrArg some ?_⟩
      rw [Extent.ofWord_append later, ends, Nat.add_zero]
    have value : String.ofList (c :: more) = word := by rw [← chars, String.ofList_toList]
    rw [List.cons_append, reals, ofText_of_endsBefore reaches, value]
    rfl

/-- A text whose tokens are all layout has no other pieces. -/
theorem reals_of_layout {text : String}
    (layout : ∀ token ∈ Forest.items (analyse text).forest, token.isReal = false) :
    reals text.toList = [] := by
  -- The tokens of the text are its pieces.
  have pieces := (Token.pieces_analyse text {}).trans (Event.pieces_ofText 0 _)
  rw [reals, ← pieces, List.filter_eq_nil_iff]
  intro piece member
  obtain ⟨token, held, rfl⟩ := List.mem_map.mp member
  rw [show token.piece.isReal = token.isReal from rfl, layout token held]
  exact Bool.false_ne_true

/-- A text without any pieces but layout ends every word, whatever is behind it. -/
theorem ofWord_of_reals {text : List Char} (nothing : reals text = []) {rest : List Char}
    (ends : text = [] → Extent.ofWord rest = 0) : Extent.ofWord (text ++ rest) = 0 := by
  cases text with
  | nil => exact ends rfl
  | cons c more =>
    -- The first piece is layout, whose first character ends a word.
    have hidden : (LexState.starting c more.head?).isReal = false := by
      rw [reals, ofText, List.filter_eq_nil_iff] at nothing
      simpa [isReal] using nothing _ List.mem_cons_self
    exact Extent.ofWord_of_layout hidden (more ++ rest)

end Piece

/-- A text of words with layout between any two of them. -/
inductive Spaced : List String → String → Prop
  | single (word : String) : Spaced [word] word
  | cons (word : String) {words : List String} {gap text : String} (apart : gap ≠ "")
      (layout : OnlyLayout gap) (rest : Spaced words text) :
      Spaced (word :: words) (word ++ gap ++ text)

/-- Names with layout between them are read as these names, if the last of them ends where the
others behind it start. -/
theorem Spaced.reals {words : List String} {text : String} (spaced : Spaced words text)
    (plain : ∀ word ∈ words, isPlainWord word = true) {rest : List Char}
    (ends : Extent.ofWord rest = 0) :
    Piece.reals (text.toList ++ rest) = words.map Piece.ofName ++ Piece.reals rest := by
  -- Each name ends where the layout behind it starts, and the layout is passed over then.
  induction spaced with
  | single word =>
    obtain ⟨first, -⟩ := List.forall_mem_cons.mp plain
    exact Piece.reals_word first ends
  | @cons word words gap text apart layout _ ih =>
    obtain ⟨first, later⟩ := List.forall_mem_cons.mp plain
    have nothing : Piece.reals gap.toList = [] := Piece.reals_of_layout layout.layout
    have filled : gap.toList ≠ [] := fun empty => apart (String.toList_inj.mp empty)
    have stops : Extent.ofWord (gap.toList ++ (text.toList ++ rest)) = 0 :=
      Piece.ofWord_of_reals nothing fun empty => absurd empty filled
    rw [String.toList_append, String.toList_append, List.append_assoc, List.append_assoc,
      Piece.reals_word first stops, Piece.reals_append layout.isLayout, ih later]
    rfl

/-- What can stand behind the last name of a scope. -/
inductive EndsScope : String → Prop
  /-- The source ends, with layout in front of its end which may be a comment that does not end. -/
  | source {text : String}
      (layout : ∀ token ∈ Forest.items (analyse text).forest, token.isReal = false) :
      EndsScope text
  /-- A closing bracket comes, with layout in front of it. -/
  | bracket {gap : String} (layout : OnlyLayout gap) (bracket : Bracket) (rest : String) :
      EndsScope (gap ++ .singleton bracket.closer ++ rest)

/-- What ends a scope ends every word, and its first piece that is not layout is a closing
bracket. -/
theorem EndsScope.reals {text : String} (ends : EndsScope text) :
    Extent.ofWord text.toList = 0 ∧
      ∀ piece ∈ (Piece.reals text.toList).head?, ∃ bracket : Bracket,
        piece.state = .closing bracket := by
  cases ends with
  | source layout =>
    -- Up to the end of the source there is layout and nothing else.
    have nothing := Piece.reals_of_layout layout
    have stops : Extent.ofWord (text.toList ++ []) = 0 :=
      Piece.ofWord_of_reals nothing fun _ => rfl
    rw [List.append_nil] at stops
    exact ⟨stops, by simp [nothing]⟩
  | @bracket gap layout bracket rest =>
    -- A closing bracket is a piece of its own, whatever is behind it.
    have reaches : EndsBefore bracket.closer [] (.closing bracket) rest.toList :=
      ⟨LexState.starting_closer bracket _, rfl⟩
    have first := Piece.ofText_of_endsBefore reaches
    rw [List.nil_append] at first
    have single : (gap ++ .singleton bracket.closer ++ rest).toList =
        gap.toList ++ bracket.closer :: rest.toList := by
      simp [String.toList_append]
    -- No bracket carries a word on.
    have stops : Extent.ofWord (bracket.closer :: rest.toList) = 0 := by
      cases bracket <;> rfl
    rw [single]
    refine ⟨Piece.ofWord_of_reals (Piece.reals_of_layout layout.layout) fun _ => stops, ?_⟩
    rw [Piece.reals_append layout.isLayout, Piece.reals, first]
    rintro piece ⟨⟩
    exact ⟨bracket, rfl⟩

end XQueryLexer
