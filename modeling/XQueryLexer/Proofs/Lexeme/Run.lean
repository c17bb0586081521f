import XQueryLexer.Proofs.Lexeme.Scanning

/-! A run of the scanner finds exactly the lexemes that the text shows. -/

namespace XQueryLexer

/-- A mode inside a lexeme that can go on, where a comment counts how deep it is. -/
structure Mode.InSpan (mode : Mode) : Prop where
  /-- The lexeme can have any number of characters. -/
  spans : mode.state.isSpan = true
  /-- Exactly the comments are nested. -/
  nested : mode.state = .comment ↔ 0 < mode.depth

/-- At the end of a text a lexeme reaches no further, or it needs an end that is missing. -/
theorem Mode.InSpan.extent?_nil {mode : Mode} (inside : mode.InSpan) :
    mode.extent? [] = if mode.state.unterminated?.isSome then none else some 0 := by
  -- Of the classes of lexemes that go on, three are ended by a delimiter only.
  have spans := inside.spans
  obtain ⟨state, depth⟩ := mode
  cases state with
  | comment | quoted quote | uriLiteral | whitespace | number | word sigil => rfl
  | _ => simp [LexState.isSpan] at spans

/-- A text that the scanner reads as the text shows, whatever the scanner holds before it. -/
structure ReadsAsShown (text : List Char) : Prop where
  /-- Between two lexemes the text starts a new one. -/
  resting {scan : Scan} {mode : Mode} {start : Nat} {findings : List Event} :
    scan.Holds mode start [] findings → mode.depth = 0 → mode.state.isResting = true →
      (scan.run text).finish.findings = findings ++ Event.ofText start text
  /-- Inside a lexeme the text carries it on as far as it reaches. -/
  inside {scan : Scan} {mode : Mode} {start : Nat} {pending : List Char} {findings : List Event} :
    scan.Holds mode start pending findings → pending ≠ [] → mode.InSpan →
      (scan.run text).finish.findings = findings ++ Event.ofRest start pending mode text

/-- Every text that is no longer than a given one is read as it shows. -/
def AllReadAsShown (longest : List Char) : Prop :=
  ∀ text : List Char, text.length ≤ longest.length → ReadsAsShown text

/-- The given text itself is read as it shows. -/
theorem AllReadAsShown.rest {text : List Char} (all : AllReadAsShown text) : ReadsAsShown text :=
  all text (Nat.le_refl _)

/-- What is left of the given text behind one more character is read as it shows. -/
theorem AllReadAsShown.more {next : Char} {text : List Char} (all : AllReadAsShown (next :: text)) :
    ReadsAsShown text :=
  all text (Nat.le_succ _)

namespace Event

/-- A lexeme that takes in some characters goes on in the text after them. -/
theorem ofRest_append {mode reached : Mode} {more rest : List Char}
    (same : reached.state = mode.state)
    (extent : mode.extent? (more ++ rest) = (reached.extent? rest).map (· + more.length))
    (start : Nat) (begun : List Char) :
    ofRest start begun mode (more ++ rest) = ofRest start (begun ++ more) reached rest := by
  -- Both sides cut the text at the same place, counted from where each of them stands.
  simp only [ofRest, extent, same]
  cases reached.extent? rest with
  | none => simp
  | some taken =>
    have cut : (more ++ rest).take (taken + more.length) = more ++ rest.take taken := by
      rw [Nat.add_comm, List.take_length_add_append]
    have left : (more ++ rest).drop (taken + more.length) = rest.drop taken := by
      rw [Nat.add_comm, List.drop_length_add_append]
    simp [cut, left]

/-- A lexeme that ends after some characters leaves the text after them. -/
theorem ofRest_ends (mode : Mode) (last rest : List Char)
    (extent : mode.extent? (last ++ rest) = some last.length) (start : Nat) (begun : List Char) :
    ofRest start begun mode (last ++ rest) =
      ofPiece start (begun ++ last) mode.state ::
        ofText (start + byteCount (begun ++ last)) rest := by
  -- The number of characters that are left to take in is that of the last ones.
  simp [ofRest, extent]

end Event

namespace Scan

variable {scan : Scan} {mode : Mode} {start : Nat} {pending : List Char} {findings : List Event}

/-- A lexeme of any length that starts ends the pending one and is read to its own end. -/
theorem Holds.run_span {c : Char} {rest : List Char}
    (holds : scan.Holds mode start pending findings) (forgets : mode.Forgets c rest.head?)
    (span : (LexState.starting c rest.head?).isSpan = true) (shown : ReadsAsShown rest) :
    (scan.run (c :: rest)).finish.findings =
      findings ++ Event.ofPending start pending mode.state ++
        Event.ofText (start + byteCount pending) (c :: rest) := by
  -- The new lexeme is pending behind its first character, which is the other half of the claim.
  have restart : Treatment.ofStart (LexState.starting c rest.head?) = .restart := by
    cases state : LexState.starting c rest.head? <;>
      simp_all [LexState.isSpan, Treatment.ofStart]
  have held := holds.read_restart (forgets.treated.trans restart)
  rw [forgets.next_eq] at held
  rw [Event.ofText_cons]
  refine shown.inside held (by simp) ⟨span, ?_⟩
  -- A comment starts at depth one, and everything else at depth zero.
  simp only [Mode.starting]
  split <;> simp_all

/-- A pair that starts ends the pending lexeme, and its second character is skipped. -/
theorem Holds.run_pair {c next : Char} {more : List Char}
    (holds : scan.Holds mode start pending findings) (forgets : mode.Forgets c (some next))
    (paired : LexState.starting c (some next) = .pair) (shown : ReadsAsShown more) :
    (scan.run (c :: next :: more)).finish.findings =
      findings ++ Event.ofPending start pending mode.state ++
        Event.ofText (start + byteCount pending) (c :: next :: more) := by
  -- Two characters are read for the one lexeme: the first finds it and the second does nothing.
  have started : Mode.starting c (some next) = ⟨.pair, 0⟩ := by
    simp [Mode.starting, paired]
  have held := holds.read_withNext (forgets.treated.trans (by rw [paired]; rfl))
  rw [forgets.next_eq, started] at held
  have found := shown.resting (held.read_skip next more.head? rfl) rfl rfl
  have cut := Event.ofRest_ends ⟨.pair, 0⟩ [next] more rfl (start + byteCount pending) [c]
  rw [Event.ofText_cons, List.head?_cons, started]
  refine found.trans ?_
  rw [List.append_assoc]
  simpa [Nat.add_assoc] using cut.symm

/-- A lexeme of one character ends the pending one and leaves nothing pending. -/
theorem Holds.run_alone {c : Char} {rest : List Char}
    (holds : scan.Holds mode start pending findings) (forgets : mode.Forgets c rest.head?)
    (alone : Treatment.ofStart (LexState.starting c rest.head?) = .alone)
    (shown : ReadsAsShown rest) :
    (scan.run (c :: rest)).finish.findings =
      findings ++ Event.ofPending start pending mode.state ++
        Event.ofText (start + byteCount pending) (c :: rest) := by
  -- The classes that stand alone are resting ones and take in nothing more.
  have single : (LexState.starting c rest.head?).isResting = true ∧
      LexState.starting c rest.head? ≠ .comment ∧
      (LexState.starting c rest.head?).extent? rest = some 0 := by
    cases state : LexState.starting c rest.head? <;>
      simp_all [LexState.isResting, Treatment.ofStart, LexState.extent?]
  have held := holds.read_alone (forgets.treated.trans alone)
  rw [forgets.next_eq] at held
  have found := shown.resting held (if_neg single.2.1) single.1
  have cut := Event.ofRest_ends _ [] rest
    ((Mode.starting_extent? c rest.head? rest).trans single.2.2) (start + byteCount pending) [c]
  rw [Event.ofText_cons]
  refine found.trans ?_
  rw [List.append_assoc]
  simpa using cut.symm

/-- Where a lexeme starts, the pending one ends and the text starts a new one. -/
theorem Holds.run_start {c : Char} {rest : List Char}
    (holds : scan.Holds mode start pending findings) (forgets : mode.Forgets c rest.head?)
    (shorter : AllReadAsShown rest) :
    (scan.run (c :: rest)).finish.findings =
      findings ++ Event.ofPending start pending mode.state ++
        Event.ofText (start + byteCount pending) (c :: rest) := by
  -- The class of the new lexeme decides the treatment, and the text left over is shorter.
  have starts := LexState.starts_starting c rest.head?
  have lexical := LexState.starting_isLexical c rest.head?
  by_cases span : (LexState.starting c rest.head?).isSpan = true
  · exact holds.run_span forgets span shorter.rest
  · by_cases paired : LexState.starting c rest.head? = .pair
    · cases rest with
      -- A pair needs a character ahead.
      | nil => rw [paired] at starts; cases starts <;> simp_all
      | cons next more => exact holds.run_pair forgets paired shorter.more
    · refine holds.run_alone forgets ?_ shorter.rest
      cases state : LexState.starting c rest.head? <;>
        simp_all [LexState.isSpan, LexState.isLexical, Treatment.ofStart]

/-- A pending lexeme that reaches no further ends where the next one starts. -/
theorem Holds.run_stop {c : Char} {rest : List Char}
    (holds : scan.Holds mode start pending findings) (filled : pending ≠ [])
    (forgets : mode.Forgets c rest.head?) (extent : mode.extent? (c :: rest) = some 0)
    (shorter : AllReadAsShown rest) :
    (scan.run (c :: rest)).finish.findings =
      findings ++ Event.ofRest start pending mode (c :: rest) := by
  -- The pending lexeme is found where it ends, and the text behind it is a text of its own.
  have found := holds.run_start forgets shorter
  have cut := Event.ofRest_ends mode [] (c :: rest) extent start pending
  rw [Event.ofPending, if_neg filled] at found
  rw [List.nil_append, List.append_nil] at cut
  rw [found, cut, List.append_assoc]
  rfl

/-- A character that carries on the pending lexeme is read as a part of it. -/
theorem Holds.run_extend {c : Char} {rest : List Char}
    (holds : scan.Holds mode start pending findings) (reached : Mode)
    (next_eq : mode.next c rest.head? = reached) (same : reached.state = mode.state)
    (inside : reached.InSpan)
    (extent : mode.extent? (c :: rest) = (reached.extent? rest).map (· + 1))
    (shown : ReadsAsShown rest) :
    (scan.run (c :: rest)).finish.findings =
      findings ++ Event.ofRest start pending mode (c :: rest) := by
  -- A state that stays the same extends the lexeme, since none of the spans splits on repetition.
  have keeps : mode.state.splitsOnRepeat = false := by
    have spans := inside.spans
    rw [same] at spans
    cases state : mode.state <;> simp_all [LexState.isSpan, LexState.splitsOnRepeat]
  have treated : mode.state.treatment (mode.next c rest.head?).state = .extend := by
    simp [next_eq, same, LexState.treatment, keeps]
  have held := holds.read_extend treated
  have cut : Event.ofRest start pending mode ([c] ++ rest) =
      Event.ofRest start (pending ++ [c]) reached rest :=
    Event.ofRest_append same extent start pending
  rw [next_eq] at held
  exact (shown.inside held (by simp) inside).trans (congrArg (findings ++ ·) cut.symm)

/-- Two characters that carry on the pending lexeme together are read as a part of it. -/
theorem Holds.run_extendTwice {c next : Char} {more : List Char}
    (holds : scan.Holds mode start pending findings) (passed : Mode)
    (next_eq : mode.next c (some next) = passed)
    (back_eq : passed.next next more.head? = mode)
    (out : mode.state.treatment passed.state = .extend)
    (back : passed.state.treatment mode.state = .extend) (inside : mode.InSpan)
    (extent : mode.extent? (c :: next :: more) = (mode.extent? more).map (· + 2))
    (shown : ReadsAsShown more) :
    (scan.run (c :: next :: more)).finish.findings =
      findings ++ Event.ofRest start pending mode (c :: next :: more) := by
  -- The mode in between is passed through, with its character already in the lexeme.
  have held := holds.read_extend (by rw [next_eq]; exact out)
  rw [next_eq] at held
  have returned := held.read_extend (by rw [back_eq]; exact back)
  rw [back_eq, List.append_assoc] at returned
  have cut : Event.ofRest start pending mode ([c, next] ++ more) =
      Event.ofRest start (pending ++ [c, next]) mode more :=
    Event.ofRest_append rfl extent start pending
  exact (shown.inside returned (by simp) inside).trans (congrArg (findings ++ ·) cut.symm)

/-- The last character of a literal is read as the end of it. -/
theorem Holds.run_last {c : Char} {rest : List Char}
    (holds : scan.Holds mode start pending findings) (reached : Mode)
    (next_eq : mode.next c rest.head? = reached)
    (treated : mode.state.treatment reached.state = .finish)
    (outside : reached.depth = 0) (resting : reached.state.isResting = true)
    (extent : mode.extent? (c :: rest) = some 1) (shown : ReadsAsShown rest) :
    (scan.run (c :: rest)).finish.findings =
      findings ++ Event.ofRest start pending mode (c :: rest) := by
  -- Behind the literal nothing is pending, so that the text starts a new lexeme.
  have held := holds.read_finish (by rw [next_eq]; exact treated)
  rw [next_eq] at held
  have cut := Event.ofRest_ends mode [c] rest extent start pending
  refine (shown.resting held outside resting).trans ?_
  rw [List.append_assoc]
  exact congrArg (findings ++ ·) cut.symm

/-- The colon and the bracket that end the outermost comment are read as the end of it. -/
theorem Holds.run_commentEnd {more : List Char}
    (holds : scan.Holds ⟨.comment, 1⟩ start pending findings) (shown : ReadsAsShown more) :
    (scan.run (':' :: ')' :: more)).finish.findings =
      findings ++ Event.ofRest start pending ⟨.comment, 1⟩ (':' :: ')' :: more) := by
  -- The bracket alone would close something, but the end of the comment has taken it.
  have held := holds.read_finishComment (some ')') rfl
  have skipped := held.read_skip ')' more.head? rfl
  have found := shown.resting skipped rfl rfl
  have cut := Event.ofRest_ends ⟨.comment, 1⟩ [':', ')'] more rfl start pending
  refine found.trans ?_
  rw [List.append_assoc]
  refine congrArg (findings ++ ·) (Eq.trans ?_ cut.symm)
  simp [Nat.add_assoc]

/-- A text that goes on behind whitespace is read as it shows. -/
theorem Holds.run_whitespace {c : Char} {rest : List Char}
    (holds : scan.Holds ⟨.whitespace, 0⟩ start pending findings) (filled : pending ≠ [])
    (shorter : AllReadAsShown rest) :
    (scan.run (c :: rest)).finish.findings =
      findings ++ Event.ofRest start pending ⟨.whitespace, 0⟩ (c :: rest) := by
  cases space : isSpace c with
  | true =>
    -- Whitespace goes on, and reaches one character further.
    refine holds.run_extend _ (Mode.next_whitespace space _) rfl ⟨rfl, by simp⟩ ?_
      shorter.rest
    simp [Mode.extent?, LexState.extent?, Extent.ofSpace, space]
  | false =>
    -- Anything else starts the next lexeme.
    refine holds.run_stop filled (Mode.forgets_whitespace space _) ?_ shorter
    simp [Mode.extent?, LexState.extent?, Extent.ofSpace, space]

/-- A text that goes on behind a part of a word is read as it shows. -/
theorem Holds.run_word {c : Char} {rest : List Char} {sigil : Sigil}
    (holds : scan.Holds ⟨.word sigil, 0⟩ start pending findings) (filled : pending ≠ [])
    (shorter : AllReadAsShown rest) :
    (scan.run (c :: rest)).finish.findings =
      findings ++ Event.ofRest start pending ⟨.word sigil, 0⟩ (c :: rest) := by
  cases continues : Extent.continuesWord c rest.head? with
  | true =>
    -- The word goes on, and reaches one character further.
    refine holds.run_extend _ (Mode.next_word continues sigil) rfl ⟨rfl, by simp⟩ ?_
      shorter.rest
    simp [Mode.extent?, LexState.extent?, Extent.ofWord, continues]
  | false =>
    -- The character starts the next lexeme, and what is behind it does not matter for the word.
    refine holds.run_stop filled (Mode.forgets_word continues sigil) ?_ shorter
    simp [Mode.extent?, LexState.extent?, Extent.ofWord, continues]

/-- A text that goes on behind a part of a number is read as it shows. -/
theorem Holds.run_number {c : Char} {rest : List Char}
    (holds : scan.Holds ⟨.number, 0⟩ start pending findings) (filled : pending ≠ [])
    (shorter : AllReadAsShown rest) :
    (scan.run (c :: rest)).finish.findings =
      findings ++ Event.ofRest start pending ⟨.number, 0⟩ (c :: rest) := by
  by_cases figure : c.isDigit = true ∨ c = '.'
  · exact holds.run_extend _ (Mode.next_number figure _) rfl ⟨rfl, by simp⟩
      (congrArg some (Extent.ofNumber_figure figure)) shorter.rest
  · cases rest with
    | nil =>
      exact holds.run_stop filled (Mode.forgets_number figure (by simp))
        (congrArg some (Extent.ofNumber_stop figure (by simp))) shorter
    | cons next more =>
      -- An exponent mark is only one if what stands behind it fits.
      by_cases exponent : (c = 'e' ∨ c = 'E') ∧ Extent.isExponentStart next = true
      · refine holds.run_extendTwice _ (Mode.next_number_exponent figure exponent.1 exponent.2) rfl
          rfl rfl ⟨rfl, by simp⟩ ?_ shorter.more
        exact congrArg some (Extent.ofNumber_exponent figure exponent.1 exponent.2)
      · have stops : (c = 'e' ∨ c = 'E') →
            (next :: more).head?.any Extent.isExponentStart = false := by
          simpa using exponent
        exact holds.run_stop filled (Mode.forgets_number figure stops)
          (congrArg some (Extent.ofNumber_stop figure stops)) shorter

/-- A text that goes on inside a string literal is read as it shows. -/
theorem Holds.run_quoted {c : Char} {rest : List Char} {quote : Quote}
    (holds : scan.Holds ⟨.quoted quote, 0⟩ start pending findings)
    (shorter : AllReadAsShown rest) :
    (scan.run (c :: rest)).finish.findings =
      findings ++ Event.ofRest start pending ⟨.quoted quote, 0⟩ (c :: rest) := by
  by_cases marks : c = quote.mark
  · subst marks
    by_cases doubled : rest.head? = some quote.mark
    · -- Two marks lead into the escape and back into the literal.
      obtain ⟨more, rfl⟩ := List.head?_eq_some_iff.mp doubled
      refine holds.run_extendTwice ⟨.quoteEscape quote, 0⟩ (by simp [Mode.next]) rfl ?_
        ?_ ⟨rfl, by simp⟩ Extent.ofString?_doubled shorter.more
      · simp [LexState.treatment]
      · simp [LexState.treatment, LexState.isEscape]
    · -- A single mark ends the literal.
      refine holds.run_last ⟨.quoteEnd quote, 0⟩ ?_ (by simp [LexState.treatment]) rfl rfl
        (Extent.ofString?_mark doubled) shorter.rest
      simp [Mode.next, doubled]
  · refine holds.run_extend ⟨.quoted quote, 0⟩ ?_ rfl ⟨rfl, by simp⟩
      (Extent.ofString?_inner marks) shorter.rest
    simp [Mode.next, marks]

/-- A text that goes on inside a URI literal is read as it shows. -/
theorem Holds.run_uriLiteral {c : Char} {rest : List Char}
    (holds : scan.Holds ⟨.uriLiteral, 0⟩ start pending findings)
    (shorter : AllReadAsShown rest) :
    (scan.run (c :: rest)).finish.findings =
      findings ++ Event.ofRest start pending ⟨.uriLiteral, 0⟩ (c :: rest) := by
  by_cases brace : c = '\x7d'
  · -- The brace is the last character of the literal.
    subst brace
    exact holds.run_last _ rfl rfl rfl rfl rfl shorter.rest
  · -- Inside the literal no other character means anything.
    refine holds.run_extend ⟨.uriLiteral, 0⟩ ?_ rfl ⟨rfl, by simp⟩ ?_
      shorter.rest
    · simp [Mode.next, brace]
    · simp [Mode.extent?, LexState.extent?, Extent.ofUriLiteral?, brace]

/-- A text that goes on inside a comment is read as it shows. -/
theorem Holds.run_comment {c : Char} {rest : List Char} {depth : Nat} (nested : 0 < depth)
    (holds : scan.Holds ⟨.comment, depth⟩ start pending findings)
    (shorter : AllReadAsShown rest) :
    (scan.run (c :: rest)).finish.findings =
      findings ++ Event.ofRest start pending ⟨.comment, depth⟩ (c :: rest) := by
  by_cases closes : c = ':' ∧ rest.head? = some ')'
  · obtain ⟨rfl, follows⟩ := closes
    by_cases outermost : depth = 1
    · -- The outermost comment ends, with the bracket behind the colon.
      subst outermost
      obtain ⟨more, rfl⟩ := List.head?_eq_some_iff.mp follows
      exact holds.run_commentEnd shorter.more
    · -- A comment inside another one ends, and the one around it goes on.
      refine holds.run_extend ⟨.comment, depth - 1⟩ ?_ rfl ⟨rfl, by simp; omega⟩ ?_
        shorter.rest
      · simp [Mode.next, follows]
        omega
      · simp [Mode.extent?, Extent.ofComment?, follows, outermost]
  · by_cases opens : c = '(' ∧ rest.head? = some ':'
    · refine holds.run_extend ⟨.comment, depth + 1⟩ ?_ rfl ⟨rfl, by simp⟩ ?_
        shorter.rest
      · simp [Mode.next, opens]
      · simp [Mode.extent?, Extent.ofComment?, opens]
    · refine holds.run_extend ⟨.comment, depth⟩ ?_ rfl ⟨rfl, by simpa⟩ ?_
        shorter.rest
      · simp [Mode.next, closes, opens]
      · simp [Mode.extent?, Extent.ofComment?, closes, opens]

/-- A text that goes on inside any lexeme is read as it shows. -/
theorem Holds.run_inside {c : Char} {rest : List Char}
    (holds : scan.Holds mode start pending findings) (filled : pending ≠ []) (inside : mode.InSpan)
    (shorter : AllReadAsShown rest) :
    (scan.run (c :: rest)).finish.findings =
      findings ++ Event.ofRest start pending mode (c :: rest) := by
  obtain ⟨state, depth⟩ := mode
  obtain ⟨spans, nested⟩ := inside
  -- Only comments are nested, so every other class is met at depth zero.
  have flat : state ≠ .comment → depth = 0 := fun apart => by
    simpa using mt nested.mpr apart
  cases state with
  | comment => exact holds.run_comment (nested.mp rfl) shorter
  | quoted quote => obtain rfl := flat (by simp); exact holds.run_quoted shorter
  | uriLiteral => obtain rfl := flat (by simp); exact holds.run_uriLiteral shorter
  | whitespace => obtain rfl := flat (by simp); exact holds.run_whitespace filled shorter
  | number => obtain rfl := flat (by simp); exact holds.run_number filled shorter
  | word sigil => obtain rfl := flat (by simp); exact holds.run_word filled shorter
  | _ => simp [LexState.isSpan] at spans

end Scan

/-- The end of the text is read as it shows. -/
theorem readsAsShown_nil : ReadsAsShown [] where
  resting {scan mode start findings} holds _ resting := by
    -- Nothing that could need an end is going on between two lexemes.
    have quiet : mode.state.unterminated? = none := by
      cases state : mode.state <;> simp_all [LexState.isResting, LexState.unterminated?]
    have found := holds.finish
    simpa [Scan.run, Event.ofPending, Event.ofEnd, quiet, Event.ofText] using found
  inside {scan mode start pending findings} holds filled inside := by
    have found := holds.finish
    rw [Event.ofPending, if_neg filled] at found
    rw [Scan.run, found, Event.ofRest, inside.extent?_nil]
    -- The lexeme ends with the text, and that is a fault where the lexeme needs an end.
    cases fault : mode.state.unterminated? with
    | none => simp [Event.ofEnd, Event.ofText, fault]
    | some fault => simp

/-- Every text is read as it shows. -/
theorem readsAsShown (text : List Char) : ReadsAsShown text := by
  -- Each case above leaves a shorter text to read, so the induction is on the length.
  induction size : text.length using Nat.strongRecOn generalizing text with
  | ind size ih =>
    subst size
    cases text with
    | nil => exact readsAsShown_nil
    | cons c rest =>
      have shorter : AllReadAsShown rest :=
        fun text short => ih text.length (Nat.lt_succ_of_le short) text rfl
      refine ⟨fun holds outside resting => ?_, fun holds filled inside => ?_⟩
      · have found := holds.run_start (Mode.forgets_of_isResting outside resting c _) shorter
        simpa [Event.ofPending] using found
      · exact holds.run_inside filled inside shorter

/-- The findings of a source are the events that its text shows. -/
theorem findings_ofSource (source : String) :
    (Event.ofSource source).filter Event.isFinding = Event.ofText 0 source.toList :=
  -- The scanner starts between two lexemes, at offset zero and with nothing found.
  (readsAsShown source.toList).resting ⟨rfl, rfl, by simp, rfl, rfl⟩ rfl rfl

end XQueryLexer
