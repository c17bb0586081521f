import XQueryLexer.Proofs.Lexeme.Layout
import XQueryLexer.Proofs.Lexeme.Spans
import XQueryLexer.Proofs.Naming.Labelling
import XQueryLexer.Proofs.Nesting.Pieces

/-! Layout between two tokens of a source leaves the other tokens, their nesting and their roles. -/

namespace XQueryLexer

/-- A forest without its layout, at every depth, and without the places of its tokens. -/
def Forest.skeleton (forest : Forest Token) : Forest Token :=
  bare LexState.isReal forest

namespace DeeplyLabelled

variable {forest : Forest Token}

/-- What is left of a labelled forest without its layout is labelled. -/
theorem prune (labelled : DeeplyLabelled forest) :
    DeeplyLabelled (Forest.prune Token.isReal forest) := by
  intro scope member
  obtain ⟨whole, within, rfl⟩ := Forest.exists_of_mem_scopes_prune member
  have pass : whole.heads = Pass.through (whole.heads.map Token.reset) := labelled whole within
  -- Layout meets nothing, so that the pass without it gives the same roles.
  have commutes : (whole.heads.filter Token.isReal).map Token.reset =
      (whole.heads.map Token.reset).filter Token.isReal := by
    rw [List.filter_map]
    rfl
  rw [Labelled, Forest.heads_prune, commutes, Pass.through_filter, ← pass]

/-- Where the tokens of a forest stand has no part in whether it is labelled. -/
theorem map_unplaced (labelled : DeeplyLabelled forest) :
    DeeplyLabelled (Forest.map Token.unplaced forest) := by
  intro scope member
  rw [Forest.scopes_map] at member
  obtain ⟨placed, within, rfl⟩ := List.mem_map.mp member
  have pass : Forest.heads placed = Pass.through ((Forest.heads placed).map Token.reset) :=
    labelled placed within
  -- No rule for roles looks at a place.
  have commutes : ((Forest.heads placed).map Token.unplaced).map Token.reset =
      ((Forest.heads placed).map Token.reset).map Token.unplaced := by
    rw [List.map_map, List.map_map]
    rfl
  rw [Labelled, Forest.heads_map, commutes, Pass.through_unplaced, ← pass]

/-- The skeleton of a labelled forest is labelled. -/
theorem skeleton (labelled : DeeplyLabelled forest) : DeeplyLabelled forest.skeleton :=
  labelled.prune.map_unplaced

end DeeplyLabelled

/-- Two labelled scopes of the same shape have the same heads. -/
theorem Labelled.heads_eq {first second : Forest Token} (left : Labelled first)
    (right : Labelled second)
    (shape_eq : Forest.map Token.reset first = Forest.map Token.reset second) :
    first.heads = second.heads := by
  -- The pass starts from the same tokens in both of them.
  have reset := congrArg Forest.heads shape_eq
  rw [Forest.heads_map, Forest.heads_map] at reset
  rw [left, right, reset]

mutual

/-- Two trees with the same head and the same shape are the same, if what is inside them is
labelled. -/
theorem Tree.eq_of_labelled {first second : Tree Token} (item_eq : first.item = second.item)
    (shape_eq : first.map Token.reset = second.map Token.reset)
    (left : ∀ scope ∈ Forest.insides [first], Labelled scope)
    (right : ∀ scope ∈ Forest.insides [second], Labelled scope) : first = second := by
  cases first with
  | leaf item =>
    -- A change of items makes no group of a leaf.
    cases second with
    | leaf other => exact congrArg Tree.leaf item_eq
    | group other outside => simp [Tree.map] at shape_eq
  | group item inside =>
    cases second with
    | leaf other => simp [Tree.map] at shape_eq
    | group other outside =>
      obtain rfl : item = other := item_eq
      simp only [Tree.map, Tree.group.injEq, true_and] at shape_eq
      simp only [Forest.insides_group, Forest.insides_nil, List.append_nil, Forest.scopes,
        List.forall_mem_cons] at left right
      -- The scope inside has its heads from its own pass, and the scopes inside of it likewise.
      rw [Forest.eq_of_labelled (left.1.heads_eq right.1 shape_eq) shape_eq left.2 right.2]

/-- Two forests with the same heads and the same shape are the same, if what is inside their groups
is labelled. -/
theorem Forest.eq_of_labelled {first second : Forest Token} (heads_eq : first.heads = second.heads)
    (shape_eq : Forest.map Token.reset first = Forest.map Token.reset second)
    (left : ∀ scope ∈ Forest.insides first, Labelled scope)
    (right : ∀ scope ∈ Forest.insides second, Labelled scope) : first = second := by
  cases first with
  | nil =>
    cases second with
    | nil => rfl
    | cons tree rest => simp at heads_eq
  | cons tree rest =>
    cases second with
    | nil => simp at heads_eq
    | cons other others =>
      obtain ⟨item_eq, heads_eq⟩ := List.cons.inj heads_eq
      obtain ⟨tree_eq, rest_eq⟩ := List.cons.inj shape_eq
      -- What is inside the first tree comes before what is inside the others.
      rw [← List.singleton_append, Forest.insides_append, List.forall_mem_append] at left right
      rw [Tree.eq_of_labelled item_eq tree_eq left.1 right.1,
        Forest.eq_of_labelled heads_eq rest_eq left.2 right.2]

end

/-- Two labelled forests of the same shape are the same. -/
theorem DeeplyLabelled.eq {first second : Forest Token} (left : DeeplyLabelled first)
    (right : DeeplyLabelled second)
    (shape_eq : Forest.map Token.reset first = Forest.map Token.reset second) : first = second := by
  -- The outermost scopes agree by their heads, and the inner ones by recursion on the trees.
  obtain ⟨own, inner⟩ := List.forall_mem_cons.mp left
  obtain ⟨own', inner'⟩ := List.forall_mem_cons.mp right
  exact Forest.eq_of_labelled (own.heads_eq own' shape_eq) shape_eq inner inner'

/-- Sources with the same pieces, apart from layout, have the same skeleton. -/
theorem skeleton_eq_of_reals {first second : String} (options : Options)
    (reals_eq : Piece.reals first.toList = Piece.reals second.toList) :
    (analyse first options).forest.skeleton = (analyse second options).forest.skeleton := by
  have labelled (source : String) : DeeplyLabelled (analyse source options).forest.skeleton :=
    DeeplyLabelled.skeleton (Assembly.named_ofSource options source).forest
  have brackets : KeepsBrackets LexState.isReal := by
    intro state
    cases state <;> simp [LexState.isBracket, LexState.isReal]
  -- The roles follow from the shape, and the shape from the pieces that are not layout.
  refine (labelled first).eq (labelled second) ?_
  simp only [Forest.skeleton, bare_analyse brackets]
  exact congrArg (fun pieces => (Nest.ofPieces pieces).forest) reals_eq

/-- Tokens and the pieces that they are spell out the same text. -/
theorem Token.chars_pieces (tokens : List Token) :
    Piece.chars (tokens.map Token.piece) = (Token.text tokens).toList := by
  -- Both sides list the characters of the values, one token after the other.
  rw [Piece.chars, Token.text, String.toList_join, List.flatMap_map, List.flatMap_map]
  rfl

section Split

variable {source : String} {options : Options} {earlier later : List Token}

/-- The pieces of the text in front of a token are those that come first in the source. -/
theorem Piece.ofText_earlier
    (split : Forest.items (analyse source options).forest = earlier ++ later) :
    Piece.ofText (Token.text earlier).toList = earlier.map Token.piece := by
  -- A text that starts with whole pieces of the source is cut into these.
  have pieces := (Token.pieces_analyse source options).trans (Event.pieces_ofText 0 _)
  rw [split, List.map_append] at pieces
  rw [← Token.chars_pieces]
  exact Piece.ofText_chars_front pieces.symm

/-- The text behind some tokens of a source shows the other tokens. -/
theorem Piece.ofText_later
    (split : Forest.items (analyse source options).forest = earlier ++ later) :
    Piece.ofText (Token.text later).toList = later.map Token.piece := by
  -- The scanner looks ahead only, so what stood in front does not count.
  have pieces := (Token.pieces_analyse source options).trans (Event.pieces_ofText 0 _)
  rw [split, List.map_append] at pieces
  rw [← Token.chars_pieces]
  exact Piece.ofText_chars pieces.symm

end Split

/-- Layout between two tokens of a source leaves the skeleton of the source. It stands in front of
the byte at which the later token starts. -/
theorem skeleton_insert {source filler before after : String} {token : Token} {options : Options}
    (isFiller : IsFiller filler)
    (stands : (analyse source options).forest.Stands before token after) :
    source = before ++ token.value ++ after ∧
      (source.utf8ByteSize < UInt32.size → token.span.start.toNat = before.utf8ByteSize) ∧
      (analyse (before ++ filler ++ token.value ++ after) options).forest.skeleton =
        (analyse source options).forest.skeleton := by
  obtain ⟨earlier, later, items, rfl, rfl⟩ := stands
  have whole := Token.text_items source options
  rw [items, Token.text_append, Token.text_cons, ← String.append_assoc] at whole
  refine ⟨whole.symm, fun small => start_of_split small items, skeleton_eq_of_reals options ?_⟩
  -- The tokens are pieces of the text, and the filler comes in between two of them.
  have split := Token.pieces_analyse source options
  rw [Event.pieces_ofText, items, List.map_append] at split
  have reals := Piece.reals_insert split.symm (by simp) isFiller.starts isFiller.isLayout
  rw [Token.chars_pieces, Token.chars_pieces, Token.text_cons] at reals
  simpa [String.toList_append] using reals

/-- A comment between a name and a bracket leaves the bracket as context of the name. -/
theorem skeleton_of_comment : IsFiller " (: c :) " ∧
    (analyse "if(a)").forest.Stands "if" (.ofState "(" (.opening .round) ⟨2, 3⟩) "a)" ∧
      (analyse "if (: c :) (a)").forest.skeleton =
        [.leaf { Token.ofState "if" (.word .bare) .null with kind := .operator },
          .group (.ofState "(" (.opening .round) .null) [.leaf (.ofState "a" (.word .bare) .null)],
          .leaf (.ofState ")" (.closing .round) .null)] := by
  have isFiller : IsFiller " (: c :) " :=
    ⟨by decide +kernel, by decide +kernel, by decide +kernel⟩
  have forest : (analyse "if(a)").forest =
      [.leaf { Token.ofState "if" (.word .bare) ⟨0, 2⟩ with kind := .operator },
        .group (.ofState "(" (.opening .round) ⟨2, 3⟩)
          [.leaf (.ofState "a" (.word .bare) ⟨3, 4⟩)],
        .leaf (.ofState ")" (.closing .round) ⟨4, 5⟩)] := by
    decide +kernel
  have stands : (analyse "if(a)").forest.Stands "if"
      (.ofState "(" (.opening .round) ⟨2, 3⟩) "a)" := by
    rw [forest]
    exact ⟨_, _, rfl, by decide, by decide⟩
  refine ⟨isFiller, stands, ?_⟩
  -- The theorem moves the forest of the short source over to the long one.
  have inserted := (skeleton_insert isFiller stands).2.2
  rw [forest] at inserted
  exact inserted

end XQueryLexer
