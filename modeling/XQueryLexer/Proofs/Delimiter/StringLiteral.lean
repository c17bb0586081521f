import XQueryLexer.Proofs.Delimiter.Reporting
import XQueryLexer.Proofs.Lexeme.Quoting
import XQueryLexer.Proofs.Naming.Roles

/-! String literals are read as the texts that they were written from, and no others are. -/

namespace XQueryLexer

/-- The token of the string literal of a text at the start of a source. -/
def Quote.literal (quote : Quote) (text : String) : Token :=
  ⟨quote.enclose text, .quoted quote, .string, false,
    .ofOffsets 0 (quote.enclose text).utf8ByteSize⟩

/-- The string literal of a text is not without an end. -/
theorem LexState.unended?_enclose (quote : Quote) (text : String) :
    (LexState.quoted quote).unended? (quote.enclose text).toList = none := by
  -- Its marks are the two around the text and those in twos.
  have marks := Quote.count_doubled quote.mark text.toList
  rw [Quote.enclose, String.toList_ofList, unended?, List.count_cons_self, List.count_append,
    List.count_singleton_self, if_neg (by omega)]

namespace Piece

variable {quote : Quote}

/-- The string literal of a text is a piece of its own in front of everything that is no mark. -/
theorem ofText_enclose (quote : Quote) (text : String) {after : List Char}
    (apart : after.head? ≠ some quote.mark) :
    ofText ((quote.enclose text).toList ++ after) =
      ⟨quote.enclose text, .quoted quote⟩ :: ofText after := by
  -- The first mark gives the class, and the last one ends the lexeme.
  have ends : EndsBefore quote.mark (Quote.doubled quote.mark text.toList ++ [quote.mark])
      (.quoted quote) after := by
    refine ⟨LexState.starting_mark quote _, ?_⟩
    rw [List.append_assoc]
    exact Extent.ofString?_enclosed text.toList apart
  rw [Quote.enclose, String.toList_ofList, List.cons_append]
  exact ofText_of_endsBefore ends

/-- A string literal in front of the other pieces of a text starts with its mark, behind which its
end is found or missing. -/
theorem exists_inside_of_quoted {piece : Piece} {others : List Piece} {text : List Char}
    (shown : ofText text = piece :: others) (quoted : piece.state = .quoted quote) :
    ∃ inside, piece.value = .ofList (quote.mark :: inside) ∧
      ((∃ text : String, quote.enclose text = piece.value) ∨
        Extent.ofString? quote.mark inside = none) := by
  cases text with
  | nil => simp [ofText] at shown
  | cons c rest =>
    rw [ofText] at shown
    obtain ⟨rfl, -⟩ := List.cons.inj shown
    have starts := LexState.starts_starting c rest.head?
    -- Only the mark leads to a string literal.
    rw [show LexState.starting c rest.head? = .quoted quote from quoted] at starts ⊢
    cases starts with
    | mark _ marks =>
      subst marks
      refine ⟨_, rfl, ?_⟩
      rw [LexState.extent?]
      cases extent : Extent.ofString? quote.mark rest with
      | some more =>
        obtain ⟨inside, eq⟩ := Extent.exists_doubled_of_ofString? extent
        refine .inl ⟨.ofList inside, ?_⟩
        rw [Option.getD_some, eq, Quote.enclose, String.toList_ofList]
      | none =>
        rw [Option.getD_none, List.take_length]
        exact .inr extent

/-- A string literal of a text has been written from exactly one text, if it is not without an
end. -/
theorem existsUnique_enclose_iff {piece : Piece} {others : List Piece} {text : List Char}
    (shown : ofText text = piece :: others) (quoted : piece.state = .quoted quote) :
    (∃! inside, piece.value = quote.enclose inside) ↔
      piece.state.unended? piece.value.toList = none := by
  obtain ⟨inside, value, found⟩ := exists_inside_of_quoted shown quoted
  rw [quoted]
  constructor
  · rintro ⟨inner, written, -⟩
    rw [written, LexState.unended?_enclose]
  · intro ended
    rcases found with ⟨inner, written⟩ | endless
    · exact ⟨inner, written.symm, fun other same =>
        quote.enclose_injective (same.symm.trans written.symm)⟩
    · -- A literal without an end shows that in its text.
      have even := Extent.even_of_ofString? endless
      rw [value, String.toList_ofList, LexState.unended?, List.count_cons_self,
        if_pos (by omega)] at ended
      cases ended

end Piece

section Source

variable {source : String} {options : Options}

/-- A tree of a source whose head is neither a bracket nor a name is a token by itself, in the role
that its class suggests. -/
theorem eq_leaf_of_apart {scope : Forest Token} {tree : Tree Token}
    (within : scope ∈ Forest.scopes (analyse source options).forest) (member : tree ∈ scope)
    (apart : tree.item.state.isBracket = false) (other : tree.item.state ≠ .word .bare) :
    tree = .leaf (.ofState tree.item.value tree.item.state tree.item.span) := by
  have deep : DeeplyLabelled (analyse source options).forest :=
    (Assembly.named_ofSource options source).forest
  have role := ((deep scope within).hasRole _ (List.mem_map_of_mem member)).kind_eq other
  obtain ⟨container, nested⟩ := exists_wellNested_analyse within
  -- Only closing brackets are errors, and only opening ones are groups.
  have right : tree.item.error = false := by
    by_contra wrong
    obtain ⟨bracket, closes⟩ := nested.error_closing member (Bool.of_not_eq_false wrong)
    rw [closes] at apart
    cases apart
  have single : tree.isGroup = false := by
    by_contra group
    obtain ⟨bracket, opens⟩ := (nested.group_iff member).mp (Bool.of_not_eq_false group)
    rw [opens] at apart
    cases apart
  cases tree with
  | group token inside => cases single
  | leaf token =>
    obtain ⟨value, state, kind, error, span⟩ := token
    obtain rfl : kind = .ofState state := role
    obtain rfl : error = false := right
    rfl

/-- The first token of a source has the text and the class of its first piece, and the role that the
class suggests, unless it is a bracket or a name. The other tokens follow it. -/
theorem exists_analyse_eq {piece : Piece} {others : List Piece}
    (shown : Piece.ofText source.toList = piece :: others) (apart : piece.state.isBracket = false)
    (other : piece.state ≠ .word .bare) : ∃ rest, (analyse source options).forest =
      .leaf (.ofState piece.value piece.state (.ofOffsets 0 piece.value.utf8ByteSize)) :: rest ∧
      (Forest.items rest).map Token.piece = others := by
  have pieces := Token.pieces_analyse source options
  rw [Event.pieces_ofText, shown] at pieces
  cases forest_eq : (analyse source options).forest with
  | nil => simp [forest_eq, Forest.items] at pieces
  | cons tree rest =>
    obtain ⟨inner, head⟩ := tree.exists_items_eq
    have split : Forest.items (analyse source options).forest =
        [] ++ tree.item :: (inner ++ Forest.items rest) := by
      rw [forest_eq, Forest.items, head]
      rfl
    rw [split] at pieces
    obtain ⟨rfl, behind⟩ := List.cons.inj pieces
    have within : tree :: rest ∈ Forest.scopes (analyse source options).forest :=
      forest_eq ▸ List.mem_cons_self
    have span : tree.item.span = .ofOffsets 0 tree.item.value.utf8ByteSize := by
      simpa using (Token.lies_analyse split).span_eq
    have leaf := eq_leaf_of_apart within List.mem_cons_self apart other
    rw [span] at leaf
    -- Nothing is inside the token, so that all other pieces are behind it.
    rw [leaf] at head
    obtain ⟨-, rfl⟩ := List.cons.inj head
    exact ⟨rest, congrArg (· :: rest) leaf, behind⟩

end Source

/-- The string literal of a text is the only token of itself. -/
theorem forest_analyse_enclose (quote : Quote) (text : String) (options : Options) :
    (analyse (quote.enclose text) options).forest = [.leaf (quote.literal text)] := by
  have shown := @Piece.ofText_enclose quote text [] (by simp)
  rw [List.append_nil] at shown
  obtain ⟨rest, forest_eq, behind⟩ := exists_analyse_eq shown rfl (by simp)
  rw [forest_eq]
  -- Behind it there is no piece, and so there is no tree.
  cases rest with
  | nil => rfl
  | cons tree rest =>
    obtain ⟨inner, head⟩ := tree.exists_items_eq
    simp [Forest.items, head, Piece.ofText] at behind

/-- Nothing is wrong with the string literal of a text. -/
theorem diagnostics_analyse_enclose (quote : Quote) (text : String) :
    (analyse (quote.enclose text)).diagnostics = [] := by
  refine List.eq_nil_iff_forall_not_mem.mpr fun diagnostic reported => ?_
  have concerns := concerns_of_mem reported
  have items : Forest.items [.leaf (quote.literal text)] = [quote.literal text] := rfl
  rw [forest_analyse_enclose, items] at concerns
  -- The only token is no bracket, and it is ended.
  cases concerns with
  | stray container member closes =>
    obtain rfl := List.mem_singleton.mp member
    cases closes
  | ending last unended =>
    rw [List.getLast?_singleton] at last
    obtain rfl := Option.some.inj last
    cases unended.symm.trans (LexState.unended?_enclose quote text)
  | unclosed member opens =>
    obtain rfl := List.mem_singleton.mp member
    cases opens

/-- A text in quotation marks, with every such mark in it written twice, is read as one string
literal if no further mark follows, and it is all of the source if nothing follows. Every string
literal of a source is such a text, and of no other text than one, unless it is reported not to
end. -/
theorem quoted_analyse (quote : Quote) :
    (∀ (text after : String) (options : Options), after.toList.head? ≠ some quote.mark →
      (analyse (quote.enclose text ++ after) options).forest.head? =
        some (.leaf (quote.literal text))) ∧
    (∀ (text : String) (options : Options),
      (analyse (quote.enclose text) options).forest = [.leaf (quote.literal text)] ∧
        (analyse (quote.enclose text)).diagnostics = []) ∧
    ∀ (source : String) (options : Options) (earlier later : List Token) (token : Token),
      Forest.items (analyse source options).forest = earlier ++ token :: later →
        token.state = .quoted quote →
          ((∃! text, token.value = quote.enclose text) ↔
            ¬(later = [] ∧ ∃ diagnostic ∈ (analyse source).diagnostics,
              diagnostic.fault = .unterminatedString quote.mark)) := by
  refine ⟨?_, ?_, ?_⟩
  · intro text after options apart
    have shown := Piece.ofText_enclose quote text apart
    rw [← String.toList_append] at shown
    obtain ⟨rest, forest_eq, -⟩ := exists_analyse_eq shown rfl (by simp)
    rw [forest_eq]
    rfl
  · intro text options
    exact ⟨forest_analyse_enclose quote text options, diagnostics_analyse_enclose quote text⟩
  · intro source options earlier later token split quoted
    have shown := Piece.ofText_later split
    rw [Token.text_cons, List.map_cons] at shown
    refine (Piece.existsUnique_enclose_iff shown quoted).trans ?_
    rw [← unended?_iff_of_split rfl (by simp) split]
    -- All that a string literal can show is that it is not ended.
    simp only [Token.piece, quoted, LexState.unended?]
    split <;> simp

/-- A letter between two marks is written with three marks on either side, and one further mark
behind a blank begins what does not end. -/
theorem quoted_of_marks : Quote.single.enclose "'a'" = "'''a'''" ∧
    " '".toList.head? ≠ some Quote.single.mark ∧
    (analyse "'''a''' '").forest.head? =
      some (.leaf ⟨"'''a'''", .quoted .single, .string, false, ⟨0, 7⟩⟩) ∧
    Forest.items (analyse "'''a''' '").forest =
      [] ++ .ofState "'''a'''" (.quoted .single) ⟨0, 7⟩ ::
        [.ofState " " .whitespace ⟨7, 8⟩, .ofState "'" (.quoted .single) ⟨8, 9⟩] ∧
    (∃! text, "'''a'''" = Quote.single.enclose text) ∧
    ¬∃! text, "'" = Quote.single.enclose text := by
  -- The tokens are evaluated, once for each of the two literals that the theorem is applied to.
  have items : Forest.items (analyse "'''a''' '").forest =
      [] ++ .ofState "'''a'''" (.quoted .single) ⟨0, 7⟩ ::
        [.ofState " " .whitespace ⟨7, 8⟩, .ofState "'" (.quoted .single) ⟨8, 9⟩] := by
    decide +kernel
  have last : Forest.items (analyse "'''a''' '").forest =
      [.ofState "'''a'''" (.quoted .single) ⟨0, 7⟩, .ofState " " .whitespace ⟨7, 8⟩] ++
        .ofState "'" (.quoted .single) ⟨8, 9⟩ :: [] := items
  have apart : " '".toList.head? ≠ some Quote.single.mark := by decide +kernel
  have written : Quote.single.enclose "'a'" = "'''a'''" := by decide +kernel
  -- The last mark is reported, which is why it stands for no text.
  have reported : ⟨.unterminatedString Quote.single.mark, 9⟩ ∈
      (analyse "'''a''' '").diagnostics := by
    decide +kernel
  obtain ⟨first, -, only⟩ := quoted_analyse .single
  refine ⟨written, apart, ?_, items, ?_, ?_⟩
  · have head := first "'a'" " '" {} apart
    rw [Quote.literal, written] at head
    exact head
  · exact (only _ _ _ _ _ items rfl).mpr fun ends => List.cons_ne_nil _ _ ends.1
  · exact fun unique => (only _ _ _ _ _ last rfl).mp unique ⟨rfl, _, reported, rfl⟩

end XQueryLexer
