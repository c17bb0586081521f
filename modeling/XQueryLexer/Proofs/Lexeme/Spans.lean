import XQueryLexer.Proofs.Lexeme.Coverage

/-! The spans of the tokens lie side by side over the whole source and hold the tokens' bytes. -/

namespace XQueryLexer

/-- The bytes of a source that a span covers. -/
def Span.bytes (span : Span) (source : String) : ByteArray :=
  source.toByteArray.extract span.start.toNat span.stop.toNat

/-- Spans with at least one byte each, which lie side by side from one offset to another. -/
def Span.Tiles : Nat → List Span → Nat → Prop
  | start, [], stop => start = stop
  | start, span :: rest, stop =>
    span.start.toNat = start ∧ span.start < span.stop ∧ Tiles span.stop.toNat rest stop

/-- The text of tokens in a row. -/
def Token.text (tokens : List Token) : String :=
  .join (tokens.map Token.value)

/-- A token of a forest with the text of the tokens before it and of those after it. -/
def Forest.Stands (forest : Forest Token) (before : String) (token : Token) (after : String) :
    Prop :=
  ∃ earlier later, Forest.items forest = earlier ++ token :: later ∧
    Token.text earlier = before ∧ Token.text later = after

namespace Token

/-- No tokens have no text. -/
@[simp] theorem text_nil : text [] = "" := rfl

/-- The text of a token comes in front of that of the tokens after it. -/
@[simp] theorem text_cons (token : Token) (tokens : List Token) :
    text (token :: tokens) = token.value ++ text tokens := by
  -- Both sides have the same characters.
  apply String.ext
  simp [text, String.toList_join]

/-- Tokens in a row have the text of both parts in a row. -/
@[simp] theorem text_append (first second : List Token) :
    text (first ++ second) = text first ++ text second := by
  -- The text of each token in front is put in front of the rest.
  induction first with
  | nil => simp
  | cons token rest ih => simp [ih, String.append_assoc]

/-- A token that has a value, and a span that starts at an offset and is as long as the value. -/
structure Lies (token : Token) (offset : Nat) : Prop where
  /-- The span reaches over the bytes of the value. -/
  span_eq : token.span = .ofOffsets offset (offset + token.value.utf8ByteSize)
  /-- There is at least one of them. -/
  positive : 0 < token.value.utf8ByteSize

/-- A piece of a text hands on a token that lies where the piece starts. -/
theorem lies_ofPiece (offset : Nat) (c : Char) (piece : List Char) (state : LexState) :
    ∃ token : Token, (Event.ofPiece offset (c :: piece) state).token? = some token ∧
      token.Lies offset ∧ token.value.utf8ByteSize = byteCount (c :: piece) := by
  refine ⟨_, rfl, ⟨?_, ?_⟩, ?_⟩
  · simp only [ofState, utf8ByteSize_ofList]
  · -- The first character alone has a byte.
    have first := c.utf8Size_pos
    simp only [ofState, utf8ByteSize_ofList, byteCount_cons]
    omega
  · simp only [ofState, utf8ByteSize_ofList]

/-- Each token that a text hands on lies behind the text of the tokens before it. -/
theorem lies_ofText (offset : Nat) (text : List Char) :
    ∀ earlier token later,
      (Event.ofText offset text).filterMap Event.token? = earlier ++ token :: later →
        token.Lies (offset + (Token.text earlier).utf8ByteSize) := by
  -- The induction follows the lexemes, so that each offset is the one its lexeme starts at.
  fun_induction Event.ofText offset text with
  | case1 =>
    intro earlier token later split
    simp at split
  | case2 offset c rest state more extent piece ih =>
    intro earlier token later split
    obtain ⟨first, handed, lies, size⟩ := lies_ofPiece offset c (rest.take more) state
    rw [List.filterMap_cons_some handed] at split
    cases earlier with
    | nil =>
      -- Nothing stands before the first token.
      obtain ⟨rfl, -⟩ := List.cons.inj split
      simpa using lies
    | cons head earlier =>
      obtain ⟨rfl, left⟩ := List.cons.inj split
      have behind := ih earlier token later left
      rw [text_cons, String.utf8ByteSize_append, size, ← Nat.add_assoc]
      exact behind
  | case3 offset c rest state extent =>
    intro earlier token later split
    obtain ⟨first, handed, lies, -⟩ := lies_ofPiece offset c rest state
    -- The end of the text hands on no token, whether it is a fault or not.
    have quiet : (Event.ofEnd state (offset + byteCount (c :: rest))).filterMap Event.token? =
        [] := by
      unfold Event.ofEnd
      cases state.unterminated? <;> rfl
    rw [List.filterMap_cons_some handed, quiet] at split
    cases earlier with
    | nil =>
      obtain ⟨rfl, -⟩ := List.cons.inj split
      simpa using lies
    | cons head earlier => simp at split

/-- Each token of a source lies behind the text of the tokens before it. -/
theorem lies_analyse {source : String} {options : Options} {earlier later : List Token}
    {token : Token}
    (split : Forest.items (analyse source options).forest = earlier ++ token :: later) :
    token.Lies (Token.text earlier).utf8ByteSize := by
  -- Neither the value nor the span of a token is touched after it was found.
  have found := Token.fresh_analyse source options
  rw [split, List.map_append, List.map_cons] at found
  have lies := lies_ofText 0 source.toList _ _ _ found.symm
  have same : Token.text (earlier.map fresh) = Token.text earlier := by
    simp only [Token.text, List.map_map]
    rfl
  rw [same, Nat.zero_add] at lies
  exact ⟨lies.span_eq, lies.positive⟩

end Token

/-- The middle one of three texts in a row is found behind the bytes of the first one. -/
theorem extract_middle (first second third : String) :
    (first ++ second ++ third).toByteArray.extract first.utf8ByteSize
        (first ++ second).utf8ByteSize = second.toByteArray := by
  simp only [String.toByteArray_append, String.utf8ByteSize_append, ByteArray.append_assoc]
  -- The first text is skipped, and what is left is cut where the second text ends.
  have skipped := @ByteArray.extract_append_size_add first.toByteArray
    (second.toByteArray ++ third.toByteArray) 0 second.toByteArray.size
  rw [Nat.add_zero, ByteArray.extract_append_eq_left rfl] at skipped
  rw [← String.size_toByteArray, ← String.size_toByteArray]
  exact skipped

/-- Two items in a row cut a list into what is before the first and what is behind the second. -/
theorem exists_neighbours {α : Type} {items : List α} {first second : α} {i : Nat}
    (here : items[i]? = some first) (next : items[i + 1]? = some second) :
    ∃ before after, items = before ++ first :: second :: after := by
  -- Both places are inside the list, which is put together again from around them.
  obtain ⟨short, rfl⟩ := List.getElem?_eq_some_iff.mp here
  obtain ⟨long, rfl⟩ := List.getElem?_eq_some_iff.mp next
  refine ⟨items.take i, items.drop (i + 2), ?_⟩
  rw [List.getElem_cons_drop, List.getElem_cons_drop, List.take_append_drop]

/-- The tokens of a source spell the source out. -/
theorem Token.text_items (source : String) (options : Options) :
    Token.text (Forest.items (analyse source options).forest) = source := by
  -- The text is compared character by character, token after token.
  apply String.ext
  rw [Token.text, String.toList_join, List.flatMap_map]
  exact Token.chars_analyse source options

section Source

variable {source : String} {options : Options} {earlier middle later : List Token} {token : Token}

/-- Tokens in the middle of a source end at an offset that 32 bits can hold. -/
theorem toNat_text (small : source.utf8ByteSize < UInt32.size)
    (split : Forest.items (analyse source options).forest = earlier ++ later) :
    (UInt32.ofNat (Token.text earlier).utf8ByteSize).toNat = (Token.text earlier).utf8ByteSize := by
  -- What is before an offset is no longer than the whole source.
  have whole := Token.text_items source options
  rw [split, Token.text_append] at whole
  have size := congrArg String.utf8ByteSize whole
  rw [String.utf8ByteSize_append] at size
  exact UInt32.toNat_ofNat_of_lt' (by omega)

/-- A token of a small source starts behind the text of the tokens before it. -/
theorem start_of_split (small : source.utf8ByteSize < UInt32.size)
    (split : Forest.items (analyse source options).forest = earlier ++ token :: later) :
    token.span.start.toNat = (Token.text earlier).utf8ByteSize := by
  -- The source is small enough for the offset to be kept as it is.
  rw [(Token.lies_analyse split).span_eq]
  exact toNat_text small split

/-- A token of a small source stops in front of the text of the tokens after it. -/
theorem stop_of_split (small : source.utf8ByteSize < UInt32.size)
    (split : Forest.items (analyse source options).forest = earlier ++ token :: later) :
    token.span.stop.toNat = (Token.text (earlier ++ [token])).utf8ByteSize := by
  -- What is in front of the tokens after the token is the text up to it and its own.
  have behind : Forest.items (analyse source options).forest = (earlier ++ [token]) ++ later := by
    rw [split, List.append_assoc, List.singleton_append]
  have size : (Token.text (earlier ++ [token])).utf8ByteSize =
      (Token.text earlier).utf8ByteSize + token.value.utf8ByteSize := by
    rw [Token.text_append, String.utf8ByteSize_append]
    simp
  rw [← toNat_text small behind, (Token.lies_analyse split).span_eq, size]
  rfl

/-- Tokens in a row are spelled out by the bytes between where they start and where they stop. -/
theorem extract_of_split
    (split : Forest.items (analyse source options).forest = earlier ++ middle ++ later) :
    source.toByteArray.extract (Token.text earlier).utf8ByteSize
        (Token.text (earlier ++ middle)).utf8ByteSize = (Token.text middle).toByteArray := by
  -- The source is the text of the three parts in a row.
  have whole := Token.text_items source options
  rw [split, Token.text_append, Token.text_append] at whole
  rw [← whole, Token.text_append]
  exact extract_middle _ _ _

/-- The tokens from some place on lie side by side up to the end of a small source. -/
theorem tiles_of_split (small : source.utf8ByteSize < UInt32.size)
    (split : Forest.items (analyse source options).forest = earlier ++ later) :
    Span.Tiles (Token.text earlier).utf8ByteSize (later.map Token.span) source.utf8ByteSize := by
  -- The induction is on the tokens that are left, each of which moves over to those before.
  induction later generalizing earlier with
  | nil =>
    have whole := Token.text_items source options
    rw [split, List.append_nil] at whole
    rw [whole]
    exact rfl
  | cons token later ih =>
    have next : Forest.items (analyse source options).forest = (earlier ++ [token]) ++ later := by
      rw [split, List.append_assoc, List.singleton_append]
    have start := start_of_split small split
    have stop := stop_of_split small split
    have behind := ih next
    rw [← stop] at behind
    refine ⟨start, ?_, behind⟩
    -- The token has a byte at least, so that it stops behind where it starts.
    have positive := (Token.lies_analyse split).positive
    rw [Token.text_append, String.utf8ByteSize_append] at stop
    rw [UInt32.lt_iff_toNat_lt, start, stop]
    simpa using positive

/-- The bytes that the span of a token covers are those of its value. -/
theorem bytes_of_split (small : source.utf8ByteSize < UInt32.size)
    (split : Forest.items (analyse source options).forest = earlier ++ token :: later) :
    token.span.bytes source = token.value.toByteArray := by
  -- The token is a row of one, so that its span covers what a row spells.
  have middle : Forest.items (analyse source options).forest = earlier ++ [token] ++ later := by
    rw [split, List.append_assoc, List.singleton_append]
  rw [Span.bytes, start_of_split small split, stop_of_split small split, extract_of_split middle]
  simp

/-- What is inside a group is spelled out by the bytes between its head and the next sibling. -/
theorem bytes_inside (small : source.utf8ByteSize < UInt32.size) {scope inside : Forest Token}
    {opener : Token} {next : Tree Token} {i : Nat}
    (member : scope ∈ Forest.scopes (analyse source options).forest)
    (group : scope[i]? = some (.group opener inside)) (follows : scope[i + 1]? = some next) :
    Span.bytes ⟨opener.span.stop, next.item.span.start⟩ source =
      (Forest.text inside).toByteArray := by
  -- The group and its next sibling stand in one piece in the scope, and the scope in the forest.
  obtain ⟨before, after, found⟩ := Forest.items_scope member
  obtain ⟨front, back, rfl⟩ := exists_neighbours group follows
  obtain ⟨rest, head⟩ := next.exists_items_eq
  have around : Forest.items (analyse source options).forest =
      (before ++ Forest.items front ++ [opener]) ++ Forest.items inside ++
        next.item :: (rest ++ Forest.items back ++ after) := by
    rw [found]
    simp [Forest.items, Tree.items, head]
  have opens : Forest.items (analyse source options).forest =
      (before ++ Forest.items front) ++ opener :: (Forest.items inside ++
        next.item :: (rest ++ Forest.items back ++ after)) := by
    rw [around]
    simp
  -- The bytes between the two spans are those behind the opening token and before the next one.
  rw [Span.bytes, stop_of_split small opens, start_of_split small around, extract_of_split around]
  rfl

end Source

/-- The spans of the tokens of a small source lie side by side over the whole source, each covers
the bytes of its token, and between a bracket and the sibling after it lie the bytes of what is
inside the bracket. -/
theorem spans_analyse (source : String) (options : Options)
    (small : source.utf8ByteSize < UInt32.size) :
    Span.Tiles 0 ((Forest.items (analyse source options).forest).map Token.span)
        source.utf8ByteSize ∧
      (∀ token ∈ Forest.items (analyse source options).forest,
        token.span.bytes source = token.value.toByteArray) ∧
      ∀ scope ∈ Forest.scopes (analyse source options).forest,
        ∀ (i : Nat) (opener : Token) (inside : Forest Token) (next : Tree Token),
          scope[i]? = some (.group opener inside) → scope[i + 1]? = some next →
            Span.bytes ⟨opener.span.stop, next.item.span.start⟩ source =
              (Forest.text inside).toByteArray := by
  -- All tokens are in a row from the first one on.
  refine ⟨tiles_of_split small (List.nil_append _).symm, ?_, ?_⟩
  · intro token member
    -- Each token cuts the others into those before and those after it.
    obtain ⟨earlier, later, split⟩ := List.append_of_mem member
    exact bytes_of_split small split
  · intro scope member i opener inside next group follows
    exact bytes_inside small member group follows

/-- A letter of two bytes inside a bracket moves the closing bracket by two. -/
theorem spans_of_accent : "(é)".utf8ByteSize < UInt32.size ∧
    Span.Tiles 0 [⟨0, 1⟩, ⟨1, 3⟩, ⟨3, 4⟩] "(é)".utf8ByteSize ∧
      Span.bytes ⟨1, 3⟩ "(é)" = "é".toByteArray := by
  have small : "(é)".utf8ByteSize < UInt32.size := by decide
  have forest : (analyse "(é)").forest =
      [.group (.ofState "(" (.opening .round) ⟨0, 1⟩) [.leaf (.ofState "é" (.word .bare) ⟨1, 3⟩)],
        .leaf (.ofState ")" (.closing .round) ⟨3, 4⟩)] := by
    decide +kernel
  have spans := spans_analyse "(é)" {} small
  rw [forest] at spans
  obtain ⟨tiles, -, inside⟩ := spans
  -- Inside the bracket there is one letter, which spells two bytes.
  have within := inside _ List.mem_cons_self 0 _ _ _ rfl rfl
  refine ⟨small, tiles, ?_⟩
  simpa [Forest.text, Forest.items, Tree.items, Tree.item, Token.ofState] using within

end XQueryLexer
