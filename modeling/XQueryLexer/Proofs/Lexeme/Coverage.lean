import XQueryLexer.Proofs.Nesting.Nest

/-! The tokens of a source are the pieces of its text, in order and without a gap. -/

namespace XQueryLexer

/-- The piece of the source that a token is. -/
def Token.piece (token : Token) : Piece :=
  ⟨token.value, token.state⟩

/-- A token as it is found, before anything is known of what stands around it. -/
def Token.fresh (token : Token) : Token :=
  .ofState token.value token.state token.span

/-- The token that an event hands on, if it does. -/
def Event.token? : Event → Option Token
  | .turn _ _ _ _ | .unterminated _ => none
  | .lexeme found =>
    some (.ofState found.value found.state (.ofOffsets found.start found.stop))

/-- The piece of the source that an event hands on, if it does. -/
def Event.piece? : Event → Option Piece
  | .turn _ _ _ _ | .unterminated _ => none
  | .lexeme found => some ⟨found.value, found.state⟩

/-- A piece of a text is handed on with its class. -/
theorem Event.piece?_ofPiece (start : Nat) (piece : List Char) (state : LexState) :
    (Event.ofPiece start piece state).piece? = some ⟨.ofList piece, state⟩ := rfl

/-- A text is cut into pieces without a gap. -/
theorem Piece.flatMap_ofText (text : List Char) :
    (Piece.ofText text).flatMap (fun piece => piece.value.toList) = text := by
  -- What a piece takes from the front and what it leaves over make up the text.
  fun_induction Piece.ofText text with
  | case1 => rfl
  | case2 c rest state more ih =>
    simp only [List.flatMap_cons, ih, String.toList_ofList, List.cons_append,
      List.take_append_drop]

/-- The lexemes of a text are its pieces, wherever the text stands. -/
theorem Event.pieces_ofText (offset : Nat) (text : List Char) :
    (Event.ofText offset text).filterMap Event.piece? = Piece.ofText text := by
  -- Both cut the text in the same places, and offsets do not show in pieces.
  fun_induction Event.ofText offset text with
  | case1 => simp [Piece.ofText]
  | case2 offset c rest state more extent piece ih =>
    rw [List.filterMap_cons_some (Event.piece?_ofPiece _ _ _), ih, Piece.ofText]
    simp only [state, extent, Option.getD_some, piece]
  | case3 offset c rest state extent =>
    -- The end of the text adds a fault at most, and nothing of the text is left over.
    have quiet : (Event.ofEnd state (offset + byteCount (c :: rest))).filterMap Event.piece? =
        [] := by
      unfold Event.ofEnd
      cases state.unterminated? <;> rfl
    rw [List.filterMap_cons_some (Event.piece?_ofPiece _ _ _), quiet, Piece.ofText]
    simp only [state, extent, Option.getD_none, List.take_length, List.drop_length, Piece.ofText]

/-- The events of pieces that lie side by side from an offset on. -/
def Event.ofPieces (offset : Nat) : List Piece → List Event
  | [] => []
  | piece :: rest =>
    .ofPiece offset piece.value.toList piece.state ::
      ofPieces (offset + byteCount piece.value.toList) rest

/-- Pieces that lie side by side are cut anywhere, and the later ones start where the earlier ones
end. -/
theorem Event.ofPieces_append (offset : Nat) (front back : List Piece) :
    ofPieces offset (front ++ back) = ofPieces offset front ++
      ofPieces (offset + byteCount (front.flatMap fun piece => piece.value.toList)) back := by
  -- The offset moves on by the bytes of one piece after the other.
  induction front generalizing offset with
  | nil => simp [ofPieces]
  | cons piece front ih => simp [ofPieces, ih, Nat.add_assoc]

/-- A text hands on its pieces side by side, and what does not end with the text is a fault behind
them. -/
theorem Event.ofText_eq_ofPieces (offset : Nat) (text : List Char) :
    ∃ fault : Option Diagnostic,
      ofText offset text =
        ofPieces offset (Piece.ofText text) ++ fault.toList.map unterminated := by
  fun_induction Event.ofText offset text with
  | case1 => exact ⟨none, by simp [Piece.ofText, ofPieces]⟩
  | case2 offset c rest state more extent piece ih =>
    obtain ⟨fault, later⟩ := ih
    refine ⟨fault, ?_⟩
    rw [Piece.ofText]
    simp only [state, extent, Option.getD_some, ofPieces, String.toList_ofList, List.cons_append]
    exact congrArg (_ :: ·) later
  | case3 offset c rest state extent =>
    -- The last piece takes in the rest of the text, whether it ends or not.
    refine ⟨state.unterminated?.map (.ofOffset · (offset + byteCount (c :: rest))), ?_⟩
    rw [Piece.ofText]
    simp only [state, extent, Option.getD_none, List.take_length, List.drop_length, Piece.ofText,
      ofPieces, String.toList_ofList, List.cons_append, List.nil_append, ofEnd]
    cases (LexState.starting c rest.head?).unterminated? <;> rfl

namespace Nest

/-- Items at the end of the innermost scope are the last ones of the whole forest. -/
theorem items_around (levels : List Level) {before after : Forest Token} {added : List Token}
    (grown : Forest.items after = Forest.items before ++ added) :
    Forest.items (around levels after) = Forest.items (around levels before) ++ added := by
  induction levels generalizing before after with
  | nil => exact grown
  | cons level outer ih =>
    -- An open bracket is the last tree of its scope, so what is inside it comes last there too.
    apply ih
    simp only [Level.fold, Forest.items_append, Forest.items, Tree.items, grown, List.append_nil,
      List.append_assoc, List.cons_append]

/-- A placed token is the last item of the forest. -/
theorem items_place (nest : Nest) (token : Token) :
    Forest.items (nest.place token).forest = Forest.items nest.forest ++ [token] :=
  -- What stands last in the innermost scope stands last in the forest.
  items_around nest.levels (Forest.items_concat nest.inside (.leaf token))

/-- A token that opens a bracket is the last item of the forest. -/
theorem items_openBracket (nest : Nest) (bracket : Bracket) (token : Token) :
    Forest.items (nest.openBracket bracket token).forest = Forest.items nest.forest ++ [token] :=
  items_around nest.levels (Forest.items_concat nest.inside (.group token []))

/-- A reported fault leaves the forest as it is. -/
theorem forest_report (nest : Nest) (diagnostic : Diagnostic) :
    (nest.report diagnostic).forest = nest.forest := by
  -- A fault is collected or dropped, and neither concerns the trees.
  unfold report
  split <;> rfl

/-- The forest of a text is that of its pieces. -/
theorem forest_ofText (collecting : Bool) (text : List Char) : (ofText collecting text).forest =
    ((Event.ofPieces 0 (Piece.ofText text)).foldl absorb (.initial collecting)).forest := by
  -- What does not end is reported, which leaves the forest as it is.
  obtain ⟨fault, cut⟩ := Event.ofText_eq_ofPieces 0 text
  rw [ofText, cut, List.foldl_append]
  cases fault with
  | none => rfl
  | some diagnostic => exact forest_report _ diagnostic

/-- Leaving the scope inside a bracket does not touch the forest, which folds the bracket anyway. -/
theorem forest_leave {nest : Nest} {level : Level} {outer : List Level}
    (levels : nest.levels = level :: outer) :
    ({ nest with levels := outer, inside := level.fold nest.inside } : Nest).forest =
      nest.forest := by
  -- On both sides the bracket is folded around what is inside it.
  rw [forest, forest, levels]
  rfl

/-- A token that closes a bracket, or fails to, is the last item of the forest. -/
theorem items_closeBracket (nest : Nest) (bracket : Bracket) (token : Token) :
    ∃ placed : Token, placed.fresh = token.fresh ∧
      Forest.items (nest.closeBracket bracket token).forest =
        Forest.items nest.forest ++ [placed] := by
  unfold closeBracket
  split
  · -- A bracket that closes nothing is placed as an error, which it was not when it was found.
    exact ⟨{ token with error := true }, rfl, by rw [items_place, forest_report]⟩
  · rename_i level outer levels
    split
    · exact ⟨token, rfl, by rw [items_place, forest_leave levels]⟩
    · exact ⟨{ token with error := true }, rfl, by rw [items_place, forest_report]⟩

/-- The token that an event hands on is the last one of the forest. -/
theorem tokens_absorb (nest : Nest) (event : Event) :
    (Forest.items (nest.absorb event).forest).map Token.fresh =
      (Forest.items nest.forest).map Token.fresh ++ event.token?.toList := by
  -- Only a lexeme hands something on, and each of the three ways to take it in places it last.
  cases event with
  | turn c ahead old new => simp [absorb, Event.token?]
  | unterminated diagnostic => simp [absorb, forest_report, Event.token?]
  | lexeme found =>
    simp only [absorb, add]
    split
    · rw [items_openBracket, List.map_append]
      rfl
    · obtain ⟨placed, same, items⟩ := items_closeBracket nest _ _
      rw [items, List.map_append, List.map_singleton, same]
      rfl
    · rw [items_place, List.map_append]
      rfl

/-- The tokens that events hand on are the tokens of the forest, in the same order. -/
theorem tokens_foldl (nest : Nest) (events : List Event) :
    (Forest.items (events.foldl absorb nest).forest).map Token.fresh =
      (Forest.items nest.forest).map Token.fresh ++ events.filterMap Event.token? := by
  -- The tokens of the first event come before those of the others.
  induction events generalizing nest with
  | nil => simp
  | cons event rest ih =>
    rw [List.foldl_cons, ih, tokens_absorb]
    cases handed : event.token? <;> simp [handed]

end Nest

/-- The tokens of a source, as they are found, are what an empty nest takes in from its text. -/
theorem Token.fresh_analyse (source : String) (options : Options) :
    (Forest.items (analyse source options).forest).map Token.fresh =
      (Event.ofText 0 source.toList).filterMap Event.token? := by
  -- A token without its role is still found in the same way.
  have hidden : Token.fresh ∘ Token.reset = Token.fresh := rfl
  have nested := congrArg (fun forest => (Forest.items forest).map Token.fresh)
    (map_reset_analyse source options)
  simp only [Forest.items_map, List.map_map, hidden] at nested
  rw [nested, Nest.ofText, Nest.tokens_foldl]
  rfl

/-- The tokens of a source are the pieces that its text hands on. -/
theorem Token.pieces_analyse (source : String) (options : Options) :
    (Forest.items (analyse source options).forest).map Token.piece =
      (Event.ofText 0 source.toList).filterMap Event.piece? := by
  -- What a token is found with includes the piece that it is.
  have shown : Token.piece ∘ Token.fresh = Token.piece := rfl
  have handed : Event.piece? = fun event => event.token?.map Token.piece := by
    funext event
    cases event <;> rfl
  have found := congrArg (List.map Token.piece) (Token.fresh_analyse source options)
  rw [List.map_map, shown, List.map_filterMap] at found
  rw [found, handed]

/-- The tokens of every source are the pieces that its text shows from the start of each on. -/
theorem pieces_eq_ofText (source : String) (options : Options) :
    (Forest.items (analyse source options).forest).map Token.piece =
      Piece.ofText source.toList := by
  -- The tokens carry the pieces of the events, and these are found where the text shows them.
  rw [Token.pieces_analyse, Event.pieces_ofText]

/-- The characters of the tokens of a source, one token after the other, are those of the source. -/
theorem Token.chars_analyse (source : String) (options : Options) :
    (Forest.items (analyse source options).forest).flatMap (fun token => token.value.toList) =
      source.toList := by
  -- The characters are read off the pieces, which leave no gap.
  have pieces := congrArg (List.flatMap fun piece => piece.value.toList)
    (Token.pieces_analyse source options)
  rw [List.flatMap_map, Event.pieces_ofText, Piece.flatMap_ofText] at pieces
  exact pieces

/-- The text of the forest that is read from a source is the source. -/
theorem text_analyse (source : String) (options : Options) :
    (analyse source options).forest.text = source := by
  -- The text is compared character by character, token after token.
  apply String.ext
  rw [Forest.text, String.toList_join, List.flatMap_map]
  exact Token.chars_analyse source options

end XQueryLexer
