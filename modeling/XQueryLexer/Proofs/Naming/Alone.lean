import XQueryLexer.Proofs.Lexeme.Layout
import XQueryLexer.Proofs.Naming.Skeleton
import XQueryLexer.Proofs.Nesting.Structure

/-! The value of a token, which is a source of its own, is read as the same token again. -/

namespace XQueryLexer

/-- Whether a state classifies closing brackets. -/
def LexState.isClosing : LexState → Bool
  | closing _ => true
  | _ => false

/-- A token as it would be if its value were the whole source. -/
def Token.alone (token : Token) : Token :=
  { Token.ofState token.value token.state (.ofOffsets 0 token.value.utf8ByteSize) with
    -- Without anything in front of it a closing bracket closes nothing.
    error := token.state.isClosing }

/-- A tree as it would be if the value of its head were the whole source. -/
def Tree.alone : Tree Token → Tree Token
  | .leaf token => .leaf token.alone
  | .group token _ => .group token.alone []

/-- A piece of a text that is a text of its own is its only piece. -/
theorem Piece.ofText_value {piece : Piece} {text : List Char} (member : piece ∈ ofText text) :
    ofText piece.value.toList = [piece] := by
  -- The text is cut in front of the piece first, and behind it then.
  obtain ⟨front, back, split⟩ := List.append_of_mem member
  have behind : ofText (chars (piece :: back)) = [piece] ++ back := ofText_chars split
  simpa [chars] using ofText_chars_front behind

/-- A tree that is the only one in its forest is labelled if its head has the role that its class
suggests and nothing is inside it. -/
theorem deeplyLabelled_alone (tree : Tree Token) : DeeplyLabelled [tree.alone] := by
  -- At the start of a scope no rule gives a role to a name.
  have fresh (token : Token) : Pass.through [token.alone] = [token.alone] := by
    have labels : token.alone.labelsAfter .scopeStart = .none := by
      unfold Token.labelsAfter
      split <;> rfl
    simp [Pass.through, Pass.start, Pass.read, Pass.latestToken?, Token.meet, labels, Labels.none,
      Pass.replace, Pass.push]
  intro scope member
  cases tree with
  | leaf token =>
    obtain rfl : scope = [.leaf token.alone] := by simpa [Forest.scopes, Tree.alone] using member
    exact (fresh token).symm
  | group token inside =>
    have member : scope = [.group token.alone []] ∨ scope = [] := by
      simpa [Forest.scopes, Tree.alone] using member
    rcases member with rfl | rfl
    · exact (fresh token).symm
    · rfl

/-- A nest that has taken in a single piece has that piece as its only tree. -/
theorem Nest.forest_absorb_alone (collecting : Bool) {tree : Tree Token}
    (group_iff : tree.isGroup = true ↔ ∃ bracket : Bracket, tree.item.state = .opening bracket) :
    ((initial collecting).absorb
        (.ofPiece 0 tree.item.value.toList tree.item.state)).forest = [tree.alone] := by
  simp only [Event.ofPiece, absorb, add, String.ofList_toList, Nat.zero_add,
    ← utf8ByteSize_eq_byteCount]
  cases tree with
  | group token inside =>
    obtain ⟨bracket, opens⟩ := group_iff.mp rfl
    obtain ⟨value, state, kind, error, span⟩ := token
    obtain rfl : state = .opening bracket := opens
    rfl
  | leaf token =>
    obtain ⟨value, state, kind, error, span⟩ := token
    cases state with
    | opening bracket => exact absurd (group_iff.mpr ⟨bracket, rfl⟩) (by simp [Tree.isGroup])
    | closing bracket =>
      -- The bracket is reported, which changes no tree.
      cases collecting <;> rfl
    | _ => rfl

/-- Every token of a source, at any depth, is the only token of its own value. -/
theorem analyse_value {source : String} {options : Options} (again : Options) {scope : Forest Token}
    (within : scope ∈ Forest.scopes (analyse source options).forest) {tree : Tree Token}
    (member : tree ∈ scope) : (analyse tree.item.value again).forest = [tree.alone] := by
  -- The token is a piece of the text, and it is the only piece of what it spells.
  have item : tree.item ∈ Forest.items (analyse source options).forest := by
    obtain ⟨before, after, found⟩ := Forest.items_scope within
    obtain ⟨front, back, rfl⟩ := List.append_of_mem member
    rw [found, Forest.items_append]
    cases tree <;> simp [Forest.items, Tree.items, Tree.item]
  have piece : tree.item.piece ∈ Piece.ofText source.toList := by
    rw [← Event.pieces_ofText 0, ← Token.pieces_analyse source options]
    exact List.mem_map_of_mem item
  have single := Piece.ofText_value piece
  -- So it is the only tree in shape, and as such it has no other role.
  have shape := map_reset_analyse tree.item.value again
  rw [Nest.forest_ofText, show Piece.ofText tree.item.value.toList = [tree.item.piece] from single]
    at shape
  have alone :=
    Nest.forest_absorb_alone again.collectDiagnostics (isGroup_iff_opening within member)
  have labelled : DeeplyLabelled (analyse tree.item.value again).forest :=
    (Assembly.named_ofSource again tree.item.value).forest
  refine labelled.eq (deeplyLabelled_alone tree) (shape.trans (alone.trans ?_))
  cases tree <;> rfl

/-- A number and a comment inside a bracket that is never closed are each read again by themselves,
and the bracket around them is read as an empty one. -/
theorem analyse_value_of_unclosed :
    (analyse "(1.5e+3(:(:)").forest =
        [.group (.ofState "(" (.opening .round) ⟨0, 1⟩)
          [.leaf (.ofState "1.5e+3" .number ⟨1, 7⟩), .leaf (.ofState "(:(:)" .comment ⟨7, 12⟩)]] ∧
      (analyse "1.5e+3").forest = [.leaf (.ofState "1.5e+3" .number ⟨0, 6⟩)] ∧
      (analyse "(:(:)").forest = [.leaf (.ofState "(:(:)" .comment ⟨0, 5⟩)] ∧
      (analyse "(").forest = [.group (.ofState "(" (.opening .round) ⟨0, 1⟩) []] := by
  have forest : (analyse "(1.5e+3(:(:)").forest =
      [.group (.ofState "(" (.opening .round) ⟨0, 1⟩)
        [.leaf (.ofState "1.5e+3" .number ⟨1, 7⟩), .leaf (.ofState "(:(:)" .comment ⟨7, 12⟩)]] := by
    decide +kernel
  -- All three tokens are in scopes of the forest: the bracket outside, the others inside it.
  have outer := @analyse_value "(1.5e+3(:(:)" {} {} _ List.mem_cons_self
  have inner := @analyse_value "(1.5e+3(:(:)" {} {}
    [.leaf (.ofState "1.5e+3" .number ⟨1, 7⟩), .leaf (.ofState "(:(:)" .comment ⟨7, 12⟩)]
  simp only [forest, Forest.scopes, Forest.insides, Forest.families, Tree.families] at outer inner
  have number := inner (by simp) List.mem_cons_self
  have comment := inner (by simp) (List.mem_cons_of_mem _ List.mem_cons_self)
  have bracket := outer List.mem_cons_self
  exact ⟨forest, number, comment, bracket⟩

end XQueryLexer
