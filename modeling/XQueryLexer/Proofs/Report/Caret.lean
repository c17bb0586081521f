import XQueryLexer.Proofs.Delimiter.Reporting
import XQueryLexer.Proofs.Report.Place
import XQueryLexer.Report

/-! The caret of a report stands below the place that the report is about exactly if every character
in front of the place in its line is a single byte. -/

namespace XQueryLexer

/-- A text has at least as many bytes as characters. -/
theorem length_le_byteCount (text : List Char) : text.length ≤ byteCount text := by
  induction text with
  | nil => exact Nat.le_refl _
  | cons c rest ih =>
    -- Every character has at least one byte.
    have := c.utf8Size_pos
    simp only [List.length_cons, byteCount_cons]
    omega

/-- A text has as many bytes as characters exactly if each character is a single byte. -/
theorem byteCount_eq_length_iff {text : List Char} :
    byteCount text = text.length ↔ ∀ c ∈ text, c.utf8Size = 1 := by
  -- No character has less than a byte, so that nothing makes up for one that has more.
  induction text with
  | nil => simp
  | cons c rest ih =>
    rw [List.forall_mem_cons, ← ih, byteCount_cons, List.length_cons]
    have := c.utf8Size_pos
    have := length_le_byteCount rest
    omega

namespace Location

/-- The line of a place, cut into its indentation, what stands between that and the place, and what
stands from the place on. -/
structure Indented (front back indent shown : List Char) : Prop where
  /-- In front of the place the line is its indentation and what is shown of it. -/
  line_eq : lineBefore front = indent ++ shown
  /-- The indentation is of characters that indent. -/
  indented : ∀ c ∈ indent, indents c = true
  /-- What is shown does not go on with one. -/
  unindented : ∀ c ∈ (shown ++ lineAfter back).head?, indents c = false

namespace Indented

variable {front back indent shown : List Char} {place : Location}

/-- The indentation of a line is all that stands in front of what is shown of it. -/
theorem takeWhile_eq (cut : Indented front back indent shown) :
    (lineBefore front ++ lineAfter back).takeWhile indents = indent ∧
      (lineBefore front ++ lineAfter back).dropWhile indents = shown ++ lineAfter back := by
  obtain ⟨line_eq, indented, unindented⟩ := cut
  rw [line_eq, List.append_assoc, List.takeWhile_append_of_pos indented,
    List.dropWhile_append_of_pos indented]
  -- What is shown starts with another character, or there is nothing of it.
  cases rest : shown ++ lineAfter back with
  | nil => simp
  | cons c more =>
    have dark : indents c = false := unindented c (by rw [rest]; rfl)
    simp [dark]

/-- The characters of an indentation are single bytes. -/
theorem utf8Size_eq_one (cut : Indented front back indent shown) :
    ∀ c ∈ indent, c.utf8Size = 1 := by
  -- A line is indented by blanks and tabs.
  intro c member
  have listed := cut.indented c member
  simp only [indents, Bool.or_eq_true, decide_eq_true_eq] at listed
  rcases listed with rfl | rfl <;> rfl

/-- A line is cut in one way only. -/
theorem eq {other others : List Char} (cut : Indented front back indent shown)
    (again : Indented front back other others) : shown = others := by
  -- The indentation is as long as it can be, so it is the same in both cuts.
  have same : indent = other := cut.takeWhile_eq.1.symm.trans again.takeWhile_eq.1
  have whole := cut.line_eq.symm.trans again.line_eq
  rw [same] at whole
  exact List.append_cancel_left whole

end Indented

/-- In front of a character that does not indent, or of the end of a source, a line can be cut. -/
theorem exists_indented {front back : List Char} (dark : ∀ c ∈ back.head?, indents c = false) :
    ∃ indent shown, Indented front back indent shown := by
  -- The indentation is taken off as far as it goes, and the first character that is shown does not
  -- indent.
  refine ⟨(lineBefore front).takeWhile indents, (lineBefore front).dropWhile indents,
    List.takeWhile_append_dropWhile.symm, fun c member => List.mem_takeWhile_imp member, ?_⟩
  intro c first
  have kept := List.head?_dropWhile_not indents (lineBefore front)
  rw [List.head?_append, head?_lineAfter] at first
  cases shown : ((lineBefore front).dropWhile indents).head? with
  | none =>
    rw [shown] at first
    -- Everything in front of the place indents, so the first character shown is that at the place.
    exact dark c first
  | some next =>
    rw [shown] at first kept
    obtain rfl : next = c := Option.some.inj first
    exact kept

end Location

/-- The caret in the last of some lines stands below a place, in the line above it. That line shows
the line of the place behind a number, without its indentation and without the white space at its
end, which is counted all the same. -/
def PointsAt (lines : List String) (front back : List Char) : Prop :=
  ∃ (earlier : List String) (number : String) (indent shown arrow : List Char),
    Location.Indented front back indent shown ∧
    lines = earlier ++
      [number ++ " | " ++ Text.trimEnd (.ofList (shown ++ Location.lineAfter back)),
        .ofList (arrow ++ ['^'])] ∧
    '^' ∉ arrow ∧ arrow.length = (number ++ " | ").length + shown.length

/-- A caret behind a bar, each in the last of some columns. -/
theorem padLeft_bar_caret (width column : Nat) :
    Text.padLeft (width + 2) ' ' "|" ++ " " ++ Text.padLeft (column + 1) '-' "^" =
      .ofList (List.replicate (width + 1) ' ' ++ ['|', ' '] ++ List.replicate column '-' ++
        ['^']) := by
  -- Both are padded by one column less than their width, since they are one character each.
  have bar : "|".length = 1 := rfl
  have caret : "^".length = 1 := rfl
  apply String.ext
  simp [Text.padLeft, Text.fill, bar, caret]

namespace Diagnostic

variable {diagnostic : Diagnostic} {source : String} {front back indent shown : List Char}

/-- The last two lines of a report: the caret stands behind as many dashes as there are bytes
between the indentation and the place. -/
theorem exists_reportLines_eq (origin : String) (split : source.toList = front ++ back)
    (position : byteCount front = diagnostic.position.toNat)
    (cut : Location.Indented front back indent shown) : ∃ (earlier : List String) (number : String),
      diagnostic.reportLines source origin = earlier ++
        [number ++ " | " ++ Text.trimEnd (.ofList (shown ++ Location.lineAfter back)),
          .ofList (List.replicate (number.length + 1) ' ' ++ ['|', ' '] ++
            List.replicate (byteCount shown) '-' ++ ['^'])] := by
  have inside : 0 < (back.head?.map Char.utf8Size).getD 1 := by
    cases back with
    | nil => exact Nat.one_pos
    | cons c rest => exact c.utf8Size_pos
  have place_eq := Location.ofOffset_eq split inside
  rw [Nat.add_zero, Nat.add_zero, position] at place_eq
  obtain ⟨before, after⟩ := cut.takeWhile_eq
  -- The indentation has as many bytes as characters, so that bytes are left behind it.
  have single := byteCount_eq_length_iff.mpr cut.utf8Size_eq_one
  have column : (Location.ofOffset source diagnostic.position.toNat).shownColumn =
      byteCount shown := by
    rw [place_eq, Location.shownColumn, Location.indentation, String.toList_ofList, before,
      cut.line_eq, byteCount_append, single]
    exact Nat.add_sub_cancel_left _ _
  have excerpt : (Location.ofOffset source diagnostic.position.toNat).excerpt =
      Text.trimEnd (.ofList (shown ++ Location.lineAfter back)) := by
    rw [place_eq, Location.excerpt, String.toList_ofList, after]
  simp only [reportLines, column, excerpt, padLeft_bar_caret]
  exact ⟨[_, _, _], _, rfl⟩

/-- The caret stands below a place exactly if every character in front of the place in its line is a
single byte. -/
theorem pointsAt_reportLines_iff (origin : String) (split : source.toList = front ++ back)
    (position : byteCount front = diagnostic.position.toNat)
    (dark : ∀ c ∈ back.head?, Location.indents c = false) :
    PointsAt (diagnostic.reportLines source origin) front back ↔
      ∀ c ∈ Location.lineBefore front, c.utf8Size = 1 := by
  obtain ⟨indent, shown, cut⟩ := Location.exists_indented dark
  obtain ⟨earlier, number, lines_eq⟩ := exists_reportLines_eq origin split position cut
  have bar (number : String) : (number ++ " | ").length = number.length + 3 :=
    String.length_append _ _
  -- The indentation makes no difference, so that the bytes behind it are to be counted.
  rw [cut.line_eq, List.forall_mem_append, and_iff_right cut.utf8Size_eq_one,
    ← byteCount_eq_length_iff]
  constructor
  · -- The lines can be read in one way only, so the column that the caret is in tells the bytes in
    -- front of it.
    rintro ⟨others, name, other, rest, arrow, again, same, -, column⟩
    obtain rfl := cut.eq again
    obtain ⟨-, last⟩ := List.append_inj' (same.symm.trans lines_eq) rfl
    obtain ⟨line, caret⟩ := List.cons.inj last
    have width := congrArg String.length line
    have arrow_eq := congrArg List.length (String.ofList_injective (List.cons.inj caret).1)
    rw [bar] at column
    simp only [String.length_append, List.length_append, List.length_replicate,
      List.length_cons, List.length_nil] at width arrow_eq
    omega
  · -- With a byte for each character, the caret is where the line below says.
    intro even
    refine ⟨earlier, number, indent, shown, _, cut, lines_eq, ?_, ?_⟩
    · simp [List.mem_replicate]
    · rw [bar]
      simp [even]
      omega

end Diagnostic

section Source

variable {source : String} {options : Options} {earlier later : List Token} {token : Token}
  {diagnostic : Diagnostic}

/-- A bracket does not indent the line that it stands in. -/
theorem indents_eq_false_of_split
    (split : Forest.items (analyse source options).forest = earlier ++ token :: later)
    (bracket : token.state.isBracket = true) :
    ∀ c ∈ (Token.text (token :: later)).toList.head?, Location.indents c = false := by
  intro c first
  have shown := Piece.ofText_later split
  obtain ⟨rest, text_eq⟩ := List.head?_eq_some_iff.mp first
  rw [text_eq, Piece.ofText, List.map_cons] at shown
  have state : LexState.starting c rest.head? = token.state :=
    congrArg Piece.state (List.cons.inj shown).1
  -- What indents is whitespace, and that starts no bracket.
  cases indent : Location.indents c with
  | false => rfl
  | true =>
    have space : isSpace c = true := by
      simp only [Location.indents, Bool.or_eq_true, decide_eq_true_eq] at indent
      rcases indent with rfl | rfl <;> rfl
    rw [← state, LexState.starting_eq_whitespace_iff.mpr space] at bracket
    cases bracket

/-- A place in front of a bracket of a small source. -/
theorem exists_place_of_bracket (small : source.utf8ByteSize < UInt32.size)
    (member : token ∈ Forest.items (analyse source options).forest)
    (bracket : token.state.isBracket = true) : ∃ front back,
      source.toList = front ++ back ∧ byteCount front = token.span.start.toNat ∧
        ∀ c ∈ back.head?, Location.indents c = false := by
  obtain ⟨earlier, later, split⟩ := List.append_of_mem member
  -- In front of the bracket is the text of the tokens before it.
  have whole := Token.text_items source options
  rw [split, Token.text_append] at whole
  refine ⟨(Token.text earlier).toList, (Token.text (token :: later)).toList, ?_, ?_,
    indents_eq_false_of_split split bracket⟩
  · rw [← String.toList_append, whole]
  · rw [start_of_split small split, utf8ByteSize_eq_byteCount]

/-- Every diagnostic of a small source is about a place in front of a bracket or at the end. -/
theorem exists_place_of_mem (small : source.utf8ByteSize < UInt32.size)
    (reported : diagnostic ∈ (analyse source).diagnostics) : ∃ front back,
      source.toList = front ++ back ∧ byteCount front = diagnostic.position.toNat ∧
        ∀ c ∈ back.head?, Location.indents c = false := by
  cases concerns_of_mem reported with
  | stray container member closes =>
    exact exists_place_of_bracket small member (by rw [closes]; rfl)
  | unclosed member opens => exact exists_place_of_bracket small member (by rw [opens]; rfl)
  | @ending token fault last unended =>
    -- The last token stops where the source ends.
    obtain ⟨earlier, split⟩ := List.getLast?_eq_some_iff.mp last
    have whole := Token.text_items source {}
    rw [split] at whole
    refine ⟨source.toList, [], (List.append_nil _).symm, ?_, by simp⟩
    rw [← utf8ByteSize_eq_byteCount, stop_of_split small split, whole]

/-- The caret under each diagnostic of a small source stands in the column of the character that the
diagnostic is about exactly if every character in front of that in its line is a single byte. -/
theorem pointsAt_analyse_iff (small : source.utf8ByteSize < UInt32.size)
    (reported : diagnostic ∈ (analyse source).diagnostics) (origin : String) :
    ∃ front back, source.toList = front ++ back ∧
      byteCount front = diagnostic.position.toNat ∧
        (PointsAt (diagnostic.reportLines source origin) front back ↔
          ∀ c ∈ Location.lineBefore front, c.utf8Size = 1) := by
  -- A diagnostic of a source stands at a place of it where no line is indented further.
  obtain ⟨front, back, split, position, dark⟩ := exists_place_of_mem small reported
  exact ⟨front, back, split, position,
    diagnostic.pointsAt_reportLines_iff origin split position dark⟩

end Source

/-- Neither the letter of two bytes in the line before nor the indentation moves the caret. -/
theorem pointsAt_of_indentation :
    "é(\n  1]".utf8ByteSize < UInt32.size ∧
      ⟨.mismatchedCloser ')' ']', 7⟩ ∈ (analyse "é(\n  1]").diagnostics ∧
      PointsAt (Diagnostic.reportLines ⟨.mismatchedCloser ')' ']', 7⟩ "é(\n  1]" "expression")
        "é(\n  1".toList "]".toList := by
  have small : "é(\n  1]".utf8ByteSize < UInt32.size := by decide
  have reported : ⟨.mismatchedCloser ')' ']', 7⟩ ∈ (analyse "é(\n  1]").diagnostics := by
    decide +kernel
  have cut : "é(\n  1]".toList = "é(\n  1".toList ++ "]".toList := by decide +kernel
  have size : byteCount "é(\n  1".toList = 7 := by decide +kernel
  obtain ⟨front, back, split, position, points⟩ := pointsAt_analyse_iff small reported "expression"
  -- Only one place has seven bytes in front of it.
  obtain ⟨rfl, rfl⟩ := append_inj_of_byteCount (split.symm.trans cut) (position.trans size.symm)
  exact ⟨small, reported, points.mpr (byteCount_eq_length_iff.mp (by decide +kernel))⟩

/-- A letter of two bytes in front of a bracket moves the caret one column too far. -/
theorem not_pointsAt_of_accent :
    ⟨.unmatchedCloser ")", 2⟩ ∈ (analyse "é)").diagnostics ∧
      "é)".toList = ['é'] ++ [')'] ∧ byteCount ['é'] = 2 ∧
      Diagnostic.reportLines ⟨.unmatchedCloser ")", 2⟩ "é)" "expression" =
        ["Error: UnmatchedClosingBracket (`)` has no matching opening bracket)", "-> expression",
          "  |", "1 | é)", "  | --^"] ∧
      ¬PointsAt (Diagnostic.reportLines ⟨.unmatchedCloser ")", 2⟩ "é)" "expression")
        ['é'] [')'] := by
  have cut : "é)".toList = ['é'] ++ [')'] := by decide +kernel
  have dark : ∀ c ∈ [')'].head?, Location.indents c = false := by
    rintro c ⟨⟩
    rfl
  refine ⟨by decide +kernel, cut, by decide, by decide +kernel, fun points => ?_⟩
  -- By the theorem the caret would need every character in front of it to be one byte.
  have single := (Diagnostic.pointsAt_reportLines_iff "expression" cut rfl dark).mp points
  exact absurd (single 'é' (by decide)) (by decide)

end XQueryLexer
