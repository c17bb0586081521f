import XQueryLexer.Proofs.Lexeme.Layout

/-! String literals as texts between two marks, with every mark inside them written twice. -/

namespace XQueryLexer

namespace Quote

/-- A text in which a character is written twice wherever it stands. -/
def doubled (mark : Char) (text : List Char) : List Char :=
  text.flatMap fun c => if c = mark then [c, c] else [c]

/-- The string literal of a text. -/
def enclose (quote : Quote) (text : String) : String :=
  .ofList (quote.mark :: (doubled quote.mark text.toList ++ [quote.mark]))

/-- A mark is written twice. -/
@[simp] theorem doubled_mark (mark : Char) (text : List Char) :
    doubled mark (mark :: text) = mark :: mark :: doubled mark text := by
  simp [doubled]

/-- Every other character is written once. -/
theorem doubled_other {mark c : Char} (other : c ≠ mark) (text : List Char) :
    doubled mark (c :: text) = c :: doubled mark text := by
  simp [doubled, other]

/-- The marks in a text that has been doubled come in twos. -/
theorem count_doubled (mark : Char) (text : List Char) :
    (doubled mark text).count mark = 2 * text.count mark := by
  -- Only a mark is counted, once in the text and twice where it is doubled.
  induction text with
  | nil => rfl
  | cons c rest ih =>
    by_cases same : c = mark
    · subst same
      rw [doubled_mark, List.count_cons_self, List.count_cons_self, List.count_cons_self, ih]
      omega
    · rw [doubled_other same, List.count_cons_of_ne same, List.count_cons_of_ne same, ih]

/-- Different texts are different with their marks doubled. -/
theorem doubled_injective (mark : Char) : (doubled mark).Injective := by
  -- The first character is read off both sides, whether it stands there once or twice.
  intro first
  induction first with
  | nil =>
    intro second same
    cases second with
    | nil => rfl
    | cons c rest => by_cases mark_eq : c = mark <;> simp [doubled, mark_eq] at same
  | cons c rest ih =>
    intro second same
    cases second with
    | nil => by_cases mark_eq : c = mark <;> simp [doubled, mark_eq] at same
    | cons d more =>
      by_cases left : c = mark <;> by_cases right : d = mark
      · subst left
        subst right
        rw [doubled_mark, doubled_mark] at same
        rw [ih (List.cons.inj (List.cons.inj same).2).2]
      · subst left
        -- A mark on one side only is compared with a character that is none.
        rw [doubled_mark, doubled_other right] at same
        exact absurd (List.cons.inj same).1.symm right
      · subst right
        rw [doubled_mark, doubled_other left] at same
        exact absurd (List.cons.inj same).1 left
      · rw [doubled_other left, doubled_other right] at same
        obtain ⟨rfl, behind⟩ := List.cons.inj same
        rw [ih behind]

/-- Different texts have different string literals. -/
theorem enclose_injective (quote : Quote) : quote.enclose.Injective := by
  -- The marks around the two texts are the same, so what is inside them is.
  intro first second same
  have inside := (List.cons.inj (String.ofList_injective same)).2
  exact String.ext (doubled_injective quote.mark (List.append_cancel_right inside))

end Quote

namespace Extent

variable {mark : Char} {text rest : List Char} {more : Nat}

/-- A string literal ends behind a text whose marks are doubled, if only one mark stands there. -/
theorem ofString?_enclosed (text : List Char) (single : rest.head? ≠ some mark) :
    ofString? mark (Quote.doubled mark text ++ mark :: rest) =
      some (Quote.doubled mark text ++ [mark]).length := by
  -- The reader takes the marks inside the text in twos, so that the last one is left for the end.
  induction text with
  | nil => exact ofString?_mark single
  | cons c text ih =>
    by_cases same : c = mark
    · subst same
      rw [Quote.doubled_mark, List.cons_append, List.cons_append, ofString?_doubled, ih]
      rfl
    · rw [Quote.doubled_other same, List.cons_append, ofString?_inner same, ih]
      rfl

/-- What a string literal takes in up to its end is a text with its marks doubled. -/
theorem exists_doubled_of_ofString? (ends : ofString? mark text = some more) :
    ∃ inside, text.take more = Quote.doubled mark inside ++ [mark] := by
  -- The induction follows the reader, which takes two marks at once.
  fun_induction ofString? mark text generalizing more with
  | case1 => simp at ends
  | case2 c rest other ih =>
    obtain ⟨taken, found, rfl⟩ := Option.map_eq_some_iff.mp ends
    obtain ⟨inside, eq⟩ := ih found
    exact ⟨c :: inside, by rw [Quote.doubled_other other, List.take_succ_cons, eq]; rfl⟩
  | case3 c last =>
    obtain rfl : c = mark := by simpa using last
    obtain rfl := Option.some.inj ends
    exact ⟨[], rfl⟩
  | case4 c first rest ih =>
    obtain rfl : c = mark := by simpa using first
    obtain ⟨taken, found, rfl⟩ := Option.map_eq_some_iff.mp ends
    obtain ⟨inside, eq⟩ := ih found
    refine ⟨c :: inside, ?_⟩
    rw [Quote.doubled_mark, List.take_succ_cons, List.take_succ_cons, eq]
    rfl
  | case5 c last next rest other =>
    obtain rfl : c = mark := by simpa using last
    obtain rfl := Option.some.inj ends
    exact ⟨[], rfl⟩

end Extent

end XQueryLexer
