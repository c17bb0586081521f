import XQueryLexer.Proofs.Lexeme.Coverage
import XQueryLexer.Proofs.Lexeme.Cutting

/-! Layout between two pieces of a text, or inside of empty brackets, leaves all other pieces as they
are. -/

namespace XQueryLexer

/-- Exactly whitespace starts whitespace. -/
theorem LexState.starting_eq_whitespace_iff {c : Char} {ahead : Option Char} :
    starting c ahead = whitespace ↔ isSpace c = true := by
  -- Of the ways to start a lexeme only the one of whitespace has its class.
  constructor
  · intro same
    have starts := starts_starting c ahead
    rw [same] at starts
    cases starts
    assumption
  · intro space
    simp [starting, space]

/-- Whitespace that reaches as far as it can consists of whitespace characters. -/
theorem Extent.isSpace_of_ofSpace {more rest : List Char}
    (ends : ofSpace (more ++ rest) = more.length) : ∀ c ∈ more, isSpace c = true := by
  -- A character that is no whitespace would have stopped the count.
  induction more with
  | nil => simp
  | cons c more ih =>
    cases space : isSpace c with
    | false => simp [ofSpace, space] at ends
    | true =>
      have inner : ofSpace (more ++ rest) = more.length := by
        simpa [ofSpace, space] using ends
      simpa [space] using ih inner

namespace Piece

/-- Whether a piece counts as context for the names around it. -/
def isReal (piece : Piece) : Bool :=
  piece.state.isReal

/-- The characters of pieces in a row. -/
def chars (pieces : List Piece) : List Char :=
  pieces.flatMap fun piece => piece.value.toList

/-- The pieces of a text that are not layout. -/
def reals (text : List Char) : List Piece :=
  (ofText text).filter isReal

variable {text rest other : List Char} {front back : List Piece} {c : Char}

/-- The characters of the first piece come first. -/
@[simp] theorem chars_cons (piece : Piece) (pieces : List Piece) :
    chars (piece :: pieces) = piece.value.toList ++ chars pieces := rfl

/-- The pieces of a text spell it out. -/
theorem chars_ofText (text : List Char) : chars (ofText text) = text :=
  flatMap_ofText text

/-- A lexeme at the start of a text is its first piece. -/
theorem ofText_of_endsBefore {more : List Char} {state : LexState}
    (ends : EndsBefore c more state rest) :
    ofText (c :: (more ++ rest)) = ⟨.ofList (c :: more), state⟩ :: ofText rest := by
  -- What the lexeme takes in is what stands in front of the rest.
  rw [ofText, ends.class_eq, ends.extent_eq]
  simp

/-- A piece of a text that other pieces follow is a lexeme that ends where they start. -/
theorem exists_endsBefore {piece : Piece} {later : List Piece}
    (split : ofText text = piece :: later) (follows : later ≠ []) :
    ∃ c more state rest, text = c :: (more ++ rest) ∧ EndsBefore c more state rest ∧
      piece = ⟨.ofList (c :: more), state⟩ ∧ ofText rest = later := by
  cases text with
  | nil => simp [ofText] at split
  | cons c rest =>
    rw [ofText] at split
    obtain ⟨first, left⟩ := List.cons.inj split
    -- Something is left over, so that the lexeme ends before the text does.
    have inner : ((LexState.starting c rest.head?).extent? rest).getD rest.length < rest.length :=
      Nat.lt_of_not_le fun outer => follows <| by
        rw [← left, List.drop_eq_nil_of_le outer, ofText]
    cases extent : (LexState.starting c rest.head?).extent? rest with
    | none => simp [extent] at inner
    | some taken =>
      simp only [extent, Option.getD_some] at first left inner
      refine ⟨c, rest.take taken, _, rest.drop taken, ?_, ⟨rfl, ?_⟩, ?_, left⟩
      · rw [List.take_append_drop]
      · rw [List.take_append_drop, extent, List.length_take_of_le (Nat.le_of_lt inner)]
      · rw [← first, List.take_append_drop]

/-- A character of whitespace adds no piece that is not layout. -/
theorem reals_space (space : isSpace c = true) (text : List Char) :
    reals (c :: text) = reals text := by
  -- Both texts go on alike behind the whitespace at their starts.
  have passed {c : Char} (space : isSpace c = true) (text : List Char) :
      reals (c :: text) = reals (text.dropWhile isSpace) := by
    have ends : EndsBefore c (text.takeWhile isSpace) .whitespace (text.dropWhile isSpace) := by
      refine ⟨LexState.starting_eq_whitespace_iff.mpr space, ?_⟩
      rw [List.takeWhile_append_dropWhile]
      rfl
    have first := ofText_of_endsBefore ends
    rw [List.takeWhile_append_dropWhile] at first
    rw [reals, first]
    rfl
  rw [passed space]
  cases text with
  | nil => rfl
  | cons next more =>
    cases blank : isSpace next with
    | true => rw [List.dropWhile_cons_of_pos blank, passed blank]
    | false => rw [List.dropWhile_cons_of_neg (by simp [blank])]

/-- Whitespace characters add no piece that is not layout. -/
theorem reals_spaces {blanks : List Char} (spaces : ∀ c ∈ blanks, isSpace c = true)
    (text : List Char) : reals (blanks ++ text) = reals text := by
  -- One whitespace character after the other is dropped.
  induction blanks with
  | nil => rfl
  | cons c blanks ih =>
    obtain ⟨space, later⟩ := List.forall_mem_cons.mp spaces
    rw [List.cons_append, reals_space space, ih later]

/-- The text behind the first pieces of a text shows the other pieces. -/
theorem ofText_chars (split : ofText text = front ++ back) : ofText (chars back) = back := by
  -- Each piece in front gives way to the text behind it.
  induction front generalizing text with
  | nil =>
    rw [List.nil_append] at split
    rw [← split, chars_ofText]
  | cons piece front ih =>
    by_cases follows : front ++ back = []
    · rw [(List.append_eq_nil_iff.mp follows).2]
      simp [chars, ofText]
    · obtain ⟨c, more, state, rest, -, -, -, later⟩ := exists_endsBefore split follows
      exact ih later

/-- The first pieces of a text stay as they are, apart from layout, in front of every text that ends
lexemes as the other pieces do. -/
theorem reals_replace (split : ofText text = front ++ back) (follows : back ≠ [])
    (alike : EndsAlike (chars back) other) :
    reals (chars front ++ other) = front.filter isReal ++ reals other ∧
      EndsAlike text (chars front ++ other) := by
  -- From the last of the pieces to the first, each ends as before in front of what follows it.
  induction front generalizing text with
  | nil =>
    rw [List.nil_append] at split
    rw [← split, chars_ofText] at alike
    exact ⟨rfl, alike⟩
  | cons piece front ih =>
    obtain ⟨c, more, state, rest, rfl, ends, rfl, later⟩ :=
      exists_endsBefore split (by simp [follows])
    obtain ⟨kept, alike⟩ := ih later
    simp only [chars_cons, String.toList_ofList, List.cons_append, List.append_assoc]
    by_cases blank : state = .whitespace
    · -- Whitespace can take in what follows, but then that is layout as well.
      subst blank
      have space : isSpace c = true := LexState.starting_eq_whitespace_iff.mp ends.class_eq
      have spaces := Extent.isSpace_of_ofSpace (Option.some.inj ends.extent_eq)
      refine ⟨?_, .cons ?_ (alike.head.append more)⟩
      · rw [reals_space space, reals_spaces spaces, kept]
        rfl
      · rw [ends.class_eq, LexState.starting_eq_whitespace_iff.mpr space]
    · have replaced := ends.replace alike fun same => absurd same blank
      refine ⟨?_, .cons ?_ (alike.head.append more)⟩
      · rw [reals, ofText_of_endsBefore replaced, List.filter_cons, List.filter_cons, ← reals, kept]
        split <;> rfl
      · rw [ends.class_eq, replaced.class_eq]

/-- The first pieces of a text stay as they are in front of every text that ends lexemes as the
other pieces do and starts with the same character, or not at all. -/
theorem ofText_replace (split : ofText text = front ++ back) (follows : back ≠ [])
    (alike : EndsAlike (chars back) other) (same : other = [] ∨ other.head? = (chars back).head?) :
    ofText (chars front ++ other) = front ++ ofText other ∧ EndsAlike text (chars front ++ other) ∧
      (chars front ++ other = [] ∨ (chars front ++ other).head? = text.head?) := by
  -- From the last of the pieces to the first, each ends as before in front of what follows it.
  induction front generalizing text with
  | nil =>
    rw [List.nil_append] at split
    rw [← split, chars_ofText] at alike same
    exact ⟨rfl, alike, same⟩
  | cons piece front ih =>
    obtain ⟨c, more, state, rest, rfl, ends, rfl, later⟩ :=
      exists_endsBefore split (by simp [follows])
    obtain ⟨kept, alike, head⟩ := ih later
    have replaced := ends.replace alike fun _ => head
    simp only [chars_cons, String.toList_ofList, List.cons_append, List.append_assoc]
    refine ⟨?_, .cons ?_ (alike.head.append more), .inr rfl⟩
    · rw [ofText_of_endsBefore replaced, kept]
    · rw [ends.class_eq, replaced.class_eq]

/-- The first pieces of a text are the pieces of what they spell. -/
theorem ofText_chars_front (split : ofText text = front ++ back) :
    ofText (chars front) = front := by
  by_cases follows : back = []
  · rw [follows, List.append_nil] at split
    rw [← split, chars_ofText, split]
  · -- Behind them the text is cut off, which ends the last of them too.
    have cut := (ofText_replace split follows (.nil _) (.inl rfl)).1
    rwa [List.append_nil, ofText, List.append_nil] at cut

end Piece

/-- Whether an event has nothing to say about a source but that it contains layout. -/
def Event.isLayout : Event → Bool
  | .turn _ _ _ _ => true
  | .lexeme found => !found.state.isReal
  | .unterminated _ => false

/-- Text of layout, all of which ends, adds no piece that is not layout to the text behind it. -/
theorem Piece.reals_append {offset : Nat} {filler : List Char}
    (layout : ∀ event ∈ Event.ofText offset filler, event.isLayout = true) (text : List Char) :
    reals (filler ++ text) = reals text := by
  -- Lexeme by lexeme, the filler gives way to what stands behind it.
  fun_induction Event.ofText offset filler with
  | case1 => rfl
  | case2 offset c rest state more extent piece ih =>
    obtain ⟨first, later⟩ := List.forall_mem_cons.mp layout
    have hidden : state.isReal = false := by simpa [Event.ofPiece, Event.isLayout] using first
    -- The rest of the lexeme is cut out of the filler, which the text follows.
    have cut : c :: rest ++ text = c :: (rest.take more ++ (rest.drop more ++ text)) := by
      rw [← List.append_assoc, List.take_append_drop, List.cons_append]
    have ends (inside : more ≤ rest.length) :
        EndsBefore c (rest.take more) state (rest.drop more) := by
      refine ⟨?_, ?_⟩
      · rw [List.take_append_drop]
      · rw [List.take_append_drop, extent, List.length_take_of_le inside]
    rw [cut, ← ih later]
    cases same : state with
    | whitespace =>
      -- Whitespace is dropped character by character.
      rw [same] at extent ends
      obtain rfl := Option.some.inj extent
      have blank := ends (List.takeWhile_prefix isSpace).length_le
      rw [reals_space (LexState.starting_eq_whitespace_iff.mp same),
        reals_spaces (Extent.isSpace_of_ofSpace (Option.some.inj blank.extent_eq))]
    | comment =>
      -- A comment is a piece by itself, whatever follows it.
      rw [same] at extent ends
      have remark := (ends (Extent.ofComment?_bounds extent).2).comment (rest.drop more ++ text)
      rw [reals, ofText_of_endsBefore remark]
      rfl
    | _ => simp [same, LexState.isReal] at hidden
  | case3 offset c rest state extent =>
    obtain ⟨first, later⟩ := List.forall_mem_cons.mp layout
    have hidden : state.isReal = false := by simpa [Event.ofPiece, Event.isLayout] using first
    -- Only a comment could reach to the end without ending, and that would be a fault.
    cases same : state with
    | whitespace => simp [same, LexState.extent?] at extent
    | comment => simp [same, Event.ofEnd, LexState.unterminated?, Event.isLayout] at later
    | _ => simp [same, LexState.isReal] at hidden

/-- Text of layout between two pieces of a text leaves all pieces that are not layout. -/
theorem Piece.reals_insert {text filler : List Char} {front back : List Piece}
    (split : ofText text = front ++ back) (follows : back ≠ [])
    (starts : filler.head?.any isSpace = true)
    (layout : ∀ event ∈ Event.ofText 0 filler, event.isLayout = true) :
    reals (chars front ++ (filler ++ chars back)) = reals text := by
  -- The whitespace ends the piece in front of the filler, and behind the filler the text goes on.
  obtain ⟨c, found, space⟩ := (Option.any_eq_true _ _).mp starts
  obtain ⟨more, rfl⟩ := List.head?_eq_some_iff.mp found
  have alike : EndsAlike (chars back) (c :: more ++ chars back) := .space space _ _
  rw [(reals_replace split follows alike).1, reals_append layout, reals, ofText_chars split, reals,
    split, List.filter_append]

namespace Nest

/-- What has been reported stays reported, and faults go on being collected. -/
theorem reports_absorb (nest : Nest) (event : Event) :
    (nest.absorb event).collecting = nest.collecting ∧
      nest.reports <+: (nest.absorb event).reports := by
  -- A report adds a fault at the end, or it is dropped.
  have reported (diagnostic : Diagnostic) :
      (nest.report diagnostic).collecting = nest.collecting ∧
        nest.reports <+: (nest.report diagnostic).reports := by
    unfold report
    split
    · exact ⟨rfl, List.prefix_append _ _⟩
    · exact ⟨rfl, List.prefix_rfl⟩
  -- An event that reports nothing leaves everything as it is.
  have same : nest.collecting = nest.collecting ∧ nest.reports <+: nest.reports :=
    ⟨rfl, List.prefix_rfl⟩
  cases event with
  | turn c ahead old new => exact same
  | unterminated diagnostic => exact reported diagnostic
  | lexeme found =>
    simp only [absorb, add]
    split
    · exact same
    · -- Of all lexemes only a closing bracket can be reported.
      unfold closeBracket
      split
      · exact reported _
      · split
        · exact same
        · exact reported _
    · exact same

/-- Events that lead to no report say of nothing that it does not end. -/
theorem ends_of_foldl_absorb {nest : Nest} (collecting : nest.collecting = true)
    (events : List Event) (quiet : (events.foldl absorb nest).reports = []) :
    nest.reports = [] ∧ ∀ diagnostic, .unterminated diagnostic ∉ events := by
  -- What is reported at the end has grown out of what is reported after the first event.
  induction events generalizing nest with
  | nil => exact ⟨quiet, by simp⟩
  | cons event rest ih =>
    obtain ⟨kept, grown⟩ := nest.reports_absorb event
    obtain ⟨silent, later⟩ := ih (kept.trans collecting) quiet
    refine ⟨List.prefix_nil.mp (silent ▸ grown), fun diagnostic member => ?_⟩
    rcases List.mem_cons.mp member with rfl | inner
    · -- A fault of the first event would have been collected.
      simp [absorb, report, collecting] at silent
    · exact later diagnostic inner

end Nest

/-- A source that has nothing in it but whitespace and comments, all of which end. -/
structure OnlyLayout (source : String) : Prop where
  /-- Every token is layout. -/
  layout : ∀ token ∈ Forest.items (analyse source).forest, token.isReal = false
  /-- Nothing is wrong with the source. -/
  quiet : (analyse source).diagnostics = []

/-- The events of a source that is only layout have nothing to say but that there is layout. -/
theorem OnlyLayout.isLayout {filler : String} (only : OnlyLayout filler) :
    ∀ event ∈ Event.ofText 0 filler.toList, event.isLayout = true := by
  intro event member
  cases event with
  | turn c ahead old new => rfl
  | unterminated diagnostic =>
    -- What does not end would have been reported.
    have quiet := only.quiet
    rw [analyse_diagnostics, Nest.reportUnclosed_eq] at quiet
    have silent : (Nest.ofText true filler.toList).reports = [] := by
      split at quiet
      · exact (List.append_eq_nil_iff.mp quiet).1
      · exact quiet
    exact absurd member ((Nest.ends_of_foldl_absorb rfl _ silent).2 diagnostic)
  | lexeme found =>
    -- The lexeme is handed on as a token with the same class.
    have handed : (⟨found.value, found.state⟩ : Piece) ∈
        (Forest.items (analyse filler).forest).map Token.piece := by
      rw [Token.pieces_analyse]
      exact List.mem_filterMap.mpr ⟨_, member, rfl⟩
    obtain ⟨token, held, same⟩ := List.mem_map.mp handed
    have hidden : token.state.isReal = false := only.layout token held
    rw [show token.state = found.state from congrArg Piece.state same] at hidden
    simp [Event.isLayout, hidden]

/-- A source that starts with whitespace and has nothing else but whitespace and comments in it, all
of which end. It may end with a comment as well. -/
structure IsFiller (source : String) : Prop where
  /-- The first character is whitespace. -/
  starts : source.toList.head?.any isSpace = true
  /-- Every token is layout. -/
  layout : ∀ token ∈ Forest.items (analyse source).forest, token.isReal = false
  /-- Nothing is wrong with the source. -/
  quiet : (analyse source).diagnostics = []

/-- The events of a filler have nothing to say but that there is layout. -/
theorem IsFiller.isLayout {filler : String} (isFiller : IsFiller filler) :
    ∀ event ∈ Event.ofText 0 filler.toList, event.isLayout = true :=
  -- A filler is only layout, and starts with whitespace beyond that.
  OnlyLayout.isLayout ⟨isFiller.layout, isFiller.quiet⟩

/-- The two characters of a bracket around nothing. -/
def Bracket.empty (bracket : Bracket) : String :=
  .ofList [bracket.opener, bracket.closer]

namespace Piece

/-- A bracket around nothing. -/
def ofEmpty (bracket : Bracket) : Piece :=
  ⟨bracket.empty, .pair⟩

/-- A bracket around a space. -/
def ofApart (bracket : Bracket) : List Piece :=
  [⟨.ofList [bracket.opener], .opening bracket⟩, ⟨.ofList [' '], .whitespace⟩,
    ⟨.ofList [bracket.closer], .closing bracket⟩]

variable {text : List Char} {front back : List Piece}

/-- The pieces of a bracket around a space are spelled by three characters. -/
@[simp] theorem chars_ofApart (bracket : Bracket) :
    chars (ofApart bracket) = [bracket.opener, ' ', bracket.closer] := by
  simp [chars, ofApart]

/-- A bracket around a space makes three pieces, whatever text is behind it. -/
theorem ofText_ofApart (bracket : Bracket) (rest : List Char) :
    ofText (chars (ofApart bracket) ++ rest) = ofApart bracket ++ ofText rest := by
  -- A bracket in front of a space, the space in front of a bracket, and a bracket at the end are
  -- lexemes by themselves.
  have opener : EndsBefore bracket.opener [] (.opening bracket) (' ' :: bracket.closer :: rest) :=
    ⟨by cases bracket <;> rfl, rfl⟩
  have space : EndsBefore ' ' [] .whitespace (bracket.closer :: rest) :=
    ⟨rfl, by cases bracket <;> rfl⟩
  have closer : EndsBefore bracket.closer [] (.closing bracket) rest :=
    ⟨LexState.starting_closer bracket _, rfl⟩
  rw [chars_ofApart]
  refine (ofText_of_endsBefore opener).trans (congrArg _ ?_)
  refine (ofText_of_endsBefore space).trans (congrArg _ ?_)
  exact ofText_of_endsBefore closer

/-- A space inside of empty brackets leaves all other pieces of a text as they are. -/
theorem ofText_apart {bracket : Bracket}
    (split : ofText text = front ++ ofEmpty bracket :: back) :
    ofText (chars front ++ (chars (ofApart bracket) ++ chars back)) =
      front ++ (ofApart bracket ++ back) := by
  -- The brackets come apart in the middle, which the pieces in front of them do not notice.
  have spelled : chars (ofEmpty bracket :: back) =
      bracket.opener :: bracket.closer :: chars back := by
    simp [ofEmpty, Bracket.empty]
  have alike : EndsAlike (chars (ofEmpty bracket :: back))
      (chars (ofApart bracket) ++ chars back) := by
    rw [spelled, chars_ofApart]
    exact .opener bracket _ _
  have same : (chars (ofApart bracket) ++ chars back).head? =
      (chars (ofEmpty bracket :: back)).head? := by
    rw [spelled, chars_ofApart]
    rfl
  have behind : ofText text = (front ++ [ofEmpty bracket]) ++ back := by
    rw [split, List.append_assoc, List.singleton_append]
  rw [(ofText_replace split (by simp) alike (.inr same)).1, ofText_ofApart, ofText_chars behind]

end Piece

end XQueryLexer
