import Mathlib.Data.List.Forall2
import XQueryLexer.Output
import XQueryLexer.Proofs.Nesting.Paths

/-! The listing of a forest has one line for each token, whatever the texts of the tokens are. -/

namespace XQueryLexer

namespace Text

/-- The digits of a number in hexadecimal notation are no newlines. -/
theorem newline_not_mem_toDigits (code : Nat) : '\n' ∉ Nat.toDigits 16 code := by
  -- The last digit is split off until one digit is left.
  have figures : ∀ figure < 16, Nat.digitChar figure ≠ '\n' := by decide
  induction code using Nat.strongRecOn with
  | _ code ih =>
    by_cases small : code < 16
    · rw [Nat.toDigits_of_lt_base small, List.mem_singleton]
      exact (figures code small).symm
    · rw [Nat.toDigits_of_base_le (by decide) (Nat.le_of_not_lt small), List.mem_append,
        List.mem_singleton, not_or]
      exact ⟨ih _ (by omega), (figures _ (Nat.mod_lt _ (by decide))).symm⟩

/-- No character is written with a newline. -/
theorem newline_not_mem_escapeChar (form : EscapeForm) (atStart : Bool) (c : Char) :
    '\n' ∉ escapeChar form atStart c := by
  have coded : '\n' ∉ escapeCode c := by
    simp [escapeCode, newline_not_mem_toDigits]
  unfold escapeChar
  -- A newline itself has a form of its own, and no other character is one.
  by_cases newline : c = '\n'
  · subst newline
    simp
  · have other : '\n' ≠ c := Ne.symm newline
    split_ifs <;> simp [coded, other]

/-- No text is written with a newline. -/
theorem newline_not_mem_escape (form : EscapeForm) (text : String) :
    '\n' ∉ (escape form text).toList := by
  -- Every character is escaped by itself, the first one with a rule of its own.
  unfold escape
  split
  · simp
  · rw [String.toList_ofList, List.mem_append, List.mem_flatMap, not_or]
    refine ⟨newline_not_mem_escapeChar form true _, ?_⟩
    rintro ⟨c, -, newline⟩
    exact newline_not_mem_escapeChar form false c newline

/-- A text in a column, with spaces behind it up to the width of the column if it is shorter. -/
structure Fills (width : Nat) (text column : List Char) : Prop where
  /-- The column is as wide as the text where that is wider. -/
  length_eq : column.length = max width text.length
  /-- The text is not cut, and only spaces are behind it. -/
  exists_eq : ∃ count, column = text ++ List.replicate count ' '

/-- A padded text fills a column. -/
theorem fills_padRight (width : Nat) (text : String) :
    Fills width text.toList (padRight width text).toList := by
  -- The blanks behind the text are as many as it falls short of the width.
  have padded : (padRight width text).toList =
      text.toList ++ List.replicate (width - text.toList.length) ' ' := by
    rw [padRight, fill, String.toList_append, String.toList_ofList, String.length_toList]
  refine ⟨?_, _, padded⟩
  rw [padded, List.length_append, List.length_replicate]
  omega

/-- Without a newline in a text there is none in its column. -/
theorem Fills.newline_not_mem {width : Nat} {text column : List Char}
    (fills : Fills width text column) (single : '\n' ∉ text) : '\n' ∉ column := by
  -- Only blanks are added to the text.
  obtain ⟨count, rfl⟩ := fills.exists_eq
  simp [single]

end Text

/-- No class of lexemes has a newline in its name. -/
theorem LexState.newline_not_mem_name (state : LexState) : '\n' ∉ state.name.toList := by
  -- The names are fixed, so there is one check for each class.
  cases state with
  | opening bracket => cases bracket <;> decide
  | closing bracket => cases bracket <;> decide
  | quoted quote => cases quote <;> decide
  | quoteEnd quote => cases quote <;> decide
  | quoteEscape quote => cases quote <;> decide
  | word sigil => cases sigil <;> decide
  | _ => decide

/-- No role has a newline in its name. -/
theorem Kind.newline_not_mem_name (kind : Kind) : '\n' ∉ kind.name.toList := by
  cases kind <;> decide

/-- A line about a token at some level: the text of the token as it can be seen, behind two spaces
for each level, and the class of the token, each in a column, then the role, and whether the token
is an error. -/
def Token.Listed (token : Token) (level : Nat) (line : List Char) : Prop :=
  ∃ value state,
    Text.Fills 16 (List.replicate (2 * level) ' ' ++ (Text.escape .bare token.value).toList) value ∧
    Text.Fills 16 token.state.name.toList state ∧
    line = value ++ state ++ token.kind.name.toList ++
      (if token.error then " error" else "").toList

/-- The line of a row is about its token. -/
theorem Row.listed_listingLine (row : Row Token) :
    row.item.Listed row.depth row.listingLine.toList := by
  -- The first column is filled with the indented value, and the second one with the class.
  have value := Text.fills_padRight columnWidth
    (Text.fill (2 * row.depth) ' ' ++ Text.escape .bare row.item.value)
  rw [String.toList_append, Text.fill, String.toList_ofList] at value
  refine ⟨_, _, value, Text.fills_padRight columnWidth _, ?_⟩
  rw [listingLine, String.toList_append, String.toList_append, String.toList_append]
  rfl

/-- A line about a token has no newline in it. -/
theorem Token.Listed.newline_not_mem {token : Token} {level : Nat} {line : List Char}
    (listed : token.Listed level line) : '\n' ∉ line := by
  obtain ⟨value, state, first, second, rfl⟩ := listed
  -- None of the four parts of a line has a newline.
  have shown : '\n' ∉ List.replicate (2 * level) ' ' ++ (Text.escape .bare token.value).toList := by
    simp [Text.newline_not_mem_escape]
  have mark : '\n' ∉ (if token.error then " error" else "").toList := by
    cases token.error <;> decide
  simp only [List.mem_append, not_or]
  exact ⟨⟨⟨first.newline_not_mem shown, second.newline_not_mem token.state.newline_not_mem_name⟩,
    token.kind.newline_not_mem_name⟩, mark⟩

/-- Lines that each end with their only newline are split at the newlines into themselves. -/
theorem splitOn_lines (lines : List (List Char)) (single : ∀ line ∈ lines, '\n' ∉ line) :
    (lines.flatMap (· ++ ['\n'])).splitOn '\n' = lines ++ [[]] := by
  -- Induction on the lines: the first newline is the end of the first line.
  induction lines with
  | nil => rfl
  | cons line rest ih =>
    obtain ⟨first, later⟩ := List.forall_mem_cons.mp single
    rw [List.flatMap_cons, List.append_assoc, List.singleton_append,
      List.splitOn_append_cons_self_of_not_mem first, ih later, List.cons_append]

namespace Forest

/-- The rows of a forest are those of the paths to its items: each has the item that its path leads
to, at the depth of the scope that the item stands in. -/
theorem forall₂_paths_rows (forest : Forest Token) :
    List.Forall₂ (fun path row => row.depth = path.dropLast.length ∧
      forest.itemAt? path = some row.item) (paths 0 forest) (rows 0 forest) := by
  have depths : (rows 0 forest).map Row.depth =
      (paths 0 forest).map fun path => path.dropLast.length := by
    simpa using Forest.depth_rows 0 0 forest
  have leads : (paths 0 forest).map forest.itemAt? = (items forest).map some :=
    Forest.itemAt?_paths [] forest
  have items : (rows 0 forest).map (fun row => some row.item) =
      (paths 0 forest).map forest.itemAt? := by
    rw [leads, ← Forest.item_rows 0 forest, List.map_map]
    rfl
  -- The two lists agree place by place, since they have the same images under two readings.
  have length : (paths 0 forest).length = (rows 0 forest).length := by
    simpa using congrArg List.length depths.symm
  refine List.forall₂_iff_get.mpr ⟨length, fun place first second => ⟨?_, ?_⟩⟩
  · simpa [first, second] using congrArg (·[place]?) depths
  · simpa [first, second] using congrArg (·[place]?) items.symm

/-- The listing of a forest has as many lines as the forest has tokens, each of which ends with its
only newline. In document order, which is the order of their paths, the tokens have one line each,
and its level is the number of groups that the path leads through. -/
theorem exists_lines_listing (forest : Forest Token) :
    ∃ (paths : List (List Nat)) (lines : List (List Char)),
      paths.Pairwise (· < ·) ∧ paths.map forest.itemAt? = (items forest).map some ∧
      forest.listing.toList.splitOn '\n' = lines ++ [[]] ∧
      lines.length = (items forest).length ∧
      List.Forall₂ (fun path line => ∃ token, forest.itemAt? path = some token ∧
        token.Listed path.dropLast.length line) paths lines := by
  -- The listing is written row by row, and each row is one line.
  have written : forest.listing.toList =
      ((rows 0 forest).map fun row => row.listingLine.toList).flatMap (· ++ ['\n']) := by
    rw [listing, String.toList_join, List.flatMap_map, List.flatMap_map]
    refine List.flatMap_congr fun row _ => ?_
    exact String.toList_append
  refine ⟨paths 0 forest, (rows 0 forest).map fun row => row.listingLine.toList,
    Forest.pairwise_paths 0 forest, Forest.itemAt?_paths [] forest, ?_, ?_, ?_⟩
  · rw [written]
    refine splitOn_lines _ fun line member => ?_
    obtain ⟨row, -, rfl⟩ := List.mem_map.mp member
    exact row.listed_listingLine.newline_not_mem
  · rw [← Forest.item_rows 0 forest, List.length_map, List.length_map]
  · -- A row and a path at the same place are about the same token.
    refine List.forall₂_map_right_iff.mpr (forest.forall₂_paths_rows.imp ?_)
    rintro path row ⟨depth, found⟩
    exact ⟨row.item, found, depth ▸ row.listed_listingLine⟩

/-- A newline inside a bracket is written as two characters behind two spaces. -/
example : listing [.group (.ofState "[" (.opening .square) .null)
      [.leaf (.ofState "\n" .whitespace .null)]] =
    "[               OpenBracket     Operator\n  \\n            Whitespace      Whitespace\n" := by
  decide +kernel

end Forest

end XQueryLexer
