import XQueryLexer.Proofs.Lexeme.Cutting
import XQueryLexer.Scan

/-! A string, a URI literal or a comment shows in its own text whether it has been ended. -/

namespace XQueryLexer

namespace Extent

/-- How many more comments a text opens than it ends. -/
def balance : List Char → Int
  | [] => 0
  | c :: rest =>
    (if c = '(' ∧ rest.head? = some ':' then 1
    else if c = ':' ∧ rest.head? = some ')' then -1
    else 0) + balance rest

/-- The number of comments that are open behind a text, where its first character opens one. -/
def openBehind : List Char → Int
  | [] => 0
  | _ :: rest => 1 + balance rest

variable {mark : Char} {text : List Char} {nested more : Nat}

/-- A string literal ends with the one of its marks that makes their number even, and the mark at
its start is one of them. -/
theorem odd_of_ofString? (ends : ofString? mark text = some more) :
    (text.take more).count mark % 2 = 1 := by
  -- Every character in front of the end is another one or the first of two marks.
  fun_induction ofString? mark text generalizing more with
  | case1 => simp at ends
  | case2 c rest inner ih =>
    obtain ⟨later, found, rfl⟩ := Option.map_eq_some_iff.mp ends
    rw [List.take_succ_cons, List.count_cons_of_ne inner]
    exact ih found
  | case3 c single =>
    obtain rfl : c = mark := by simpa using single
    obtain rfl := Option.some.inj ends
    simp
  | case4 c single rest ih =>
    obtain rfl : c = mark := by simpa using single
    obtain ⟨later, found, rfl⟩ := Option.map_eq_some_iff.mp ends
    have odd := ih found
    rw [List.take_succ_cons, List.take_succ_cons, List.count_cons_self, List.count_cons_self]
    omega
  | case5 c single next rest other =>
    obtain rfl : c = mark := by simpa using single
    obtain rfl := Option.some.inj ends
    simp

/-- A string literal that does not end has all its marks but the first one in twos. -/
theorem even_of_ofString? (endless : ofString? mark text = none) : text.count mark % 2 = 0 := by
  -- The literal goes on behind every mark, so that marks are passed over two by two.
  fun_induction ofString? mark text with
  | case1 => rfl
  | case2 c rest inner ih =>
    rw [List.count_cons_of_ne inner]
    exact ih (Option.map_eq_none_iff.mp endless)
  | case3 c single => simp at endless
  | case4 c single rest ih =>
    obtain rfl : c = mark := by simpa using single
    have even := ih (Option.map_eq_none_iff.mp endless)
    rw [List.count_cons_self, List.count_cons_self]
    omega
  | case5 c single next rest other => simp at endless

/-- A URI literal ends with a brace. -/
theorem getLast?_of_ofUriLiteral? (ends : ofUriLiteral? text = some more) :
    (text.take more).getLast? = some '}' := by
  -- The brace is the character at which the count stops.
  fun_induction ofUriLiteral? text generalizing more with
  | case1 => simp at ends
  | case2 rest =>
    obtain rfl := Option.some.inj ends
    rfl
  | case3 c rest other ih =>
    obtain ⟨later, found, rfl⟩ := Option.map_eq_some_iff.mp ends
    rw [List.take_succ_cons, List.getLast?_cons, ih found]
    rfl

/-- A URI literal that does not end has no brace that could end it. -/
theorem not_mem_of_ofUriLiteral? (endless : ofUriLiteral? text = none) : '}' ∉ text := by
  -- A brace anywhere would have stopped the count.
  fun_induction ofUriLiteral? text with
  | case1 => simp
  | case2 rest => simp at endless
  | case3 c rest other ih =>
    have later := ih (Option.map_eq_none_iff.mp endless)
    simp only [List.mem_cons, not_or]
    exact ⟨fun same => other same.symm, later⟩

/-- The end of a comment leaves nothing open of the comments that it is inside of. -/
theorem balance_of_ofComment? (least : 1 ≤ nested) (ends : ofComment? nested text = some more) :
    nested + balance (text.take more) = 0 := by
  induction text generalizing nested more with
  | nil => simp [ofComment?] at ends
  | cons c rest ih =>
    -- In front of the end a character sees the one after it in the comment as in the text.
    have inner {nested' : Nat} (least : 1 ≤ nested')
        (ends : (ofComment? nested' rest).map (· + 1) = some more) :
        balance ((c :: rest).take more) = (if c = '(' ∧ rest.head? = some ':' then 1
          else if c = ':' ∧ rest.head? = some ')' then -1 else 0) - (nested' : Int) := by
      obtain ⟨later, found, rfl⟩ := Option.map_eq_some_iff.mp ends
      have bounds := ofComment?_bounds found
      have ahead : (rest.take later).head? = rest.head? := by
        rw [List.head?_take, if_neg (by omega)]
      have balanced := ih least found
      rw [List.take_succ_cons, balance, ahead]
      omega
    rw [ofComment?] at ends
    split at ends
    · rename_i opens
      -- An opening delimiter adds one to both sides.
      rw [inner (by omega) ends, if_pos (by simpa using opens)]
      omega
    · rename_i other
      split at ends
      · rename_i closes
        split at ends
        · -- The colon and the bracket that end the outermost comment are all that is left of it.
          obtain rfl := Option.some.inj ends
          obtain ⟨rfl, ahead⟩ : c = ':' ∧ rest.head? = some ')' := by simpa using closes
          obtain ⟨more, rfl⟩ := List.head?_eq_some_iff.mp ahead
          simp [balance]
          omega
        · -- A closing delimiter inside another comment takes one from both sides.
          rw [inner (by omega) ends, if_neg (by simpa using other), if_pos (by simpa using closes)]
          omega
      · rename_i apart
        rw [inner least ends, if_neg (by simpa using other), if_neg (by simpa using apart)]
        omega

/-- Where no end is found, something stays open of the comments that a text is inside of. -/
theorem balance_pos_of_ofComment? (least : 1 ≤ nested) (endless : ofComment? nested text = none) :
    0 < nested + balance text := by
  -- The balance follows the count of open comments, which never comes to its end.
  induction text generalizing nested with
  | nil =>
    -- At the end of the text as many comments are open as at first, and one is open at least.
    simp only [balance]
    omega
  | cons c rest ih =>
    rw [ofComment?] at endless
    rw [balance]
    split at endless
    · rename_i opens
      have positive := ih (by omega) (Option.map_eq_none_iff.mp endless)
      rw [if_pos (by simpa using opens)]
      omega
    · rename_i other
      rw [if_neg (by simpa using other)]
      split at endless
      · rename_i closes
        rw [if_pos (by simpa using closes)]
        split at endless
        · -- The delimiter of the outermost comment would have ended it.
          simp at endless
        · have positive := ih (by omega) (Option.map_eq_none_iff.mp endless)
          omega
      · rename_i apart
        have positive := ih least (Option.map_eq_none_iff.mp endless)
        rw [if_neg (by simpa using apart)]
        omega

end Extent

/-- The fault of a lexeme that nothing but the end of the source has ended, read off its text. -/
def LexState.unended? (state : LexState) (text : List Char) : Option Fault :=
  match state with
  | .quoted quote =>
    if text.count quote.mark % 2 = 1 then some (.unterminatedString quote.mark) else none
  | .uriLiteral => if text.getLast? = some '}' then none else some .unterminatedUriLiteral
  | .comment => if 0 < Extent.openBehind text then some .unterminatedComment else none
  | _ => none

namespace LexState.Starts

variable {c : Char} {rest : List Char} {state : LexState}

/-- A lexeme that ends in front of the end of the source shows no fault. -/
theorem unended?_eq_none (starts : state.Starts c rest.head?) {more : Nat}
    (extent : state.extent? rest = some more) : state.unended? (c :: rest.take more) = none := by
  -- Only what is enclosed in delimiters can show a fault, and each kind shows it in its own way.
  cases starts with
  | mark quote marks =>
    have odd := Extent.odd_of_ofString? extent
    -- The first mark makes the odd number behind it even.
    rw [unended?, marks, List.count_cons_self, if_neg (by omega)]
  | uriLiteral letter brace =>
    have last := Extent.getLast?_of_ofUriLiteral? extent
    rw [unended?, List.getLast?_cons, last]
    exact if_pos rfl
  | comment round colon =>
    have balanced := Extent.balance_of_ofComment? (Nat.le_refl 1) extent
    -- Nothing is left open where the comment ends.
    rw [unended?, Extent.openBehind, if_neg (by omega)]
  | _ => rfl

/-- A lexeme that only the end of the source ends shows the fault that this is. -/
theorem unended?_eq_unterminated? (starts : state.Starts c rest.head?)
    (endless : state.extent? rest = none) : state.unended? (c :: rest) = state.unterminated? := by
  -- What is not enclosed in delimiters always ends, so that the other cases cannot be.
  cases starts with
  | mark quote marks =>
    have even := Extent.even_of_ofString? endless
    rw [unended?, marks, List.count_cons_self, if_pos (by omega)]
    rfl
  | uriLiteral letter brace =>
    have absent := Extent.not_mem_of_ofUriLiteral? endless
    rw [unended?, if_neg]
    · rfl
    · -- The last character is no brace, because none of them is.
      intro last
      rcases List.mem_cons.mp (List.mem_of_getLast? last) with rfl | inner
      · exact absurd letter (by decide)
      · exact absent inner
  | comment round colon =>
    have positive := Extent.balance_pos_of_ofComment? (Nat.le_refl 1) endless
    rw [unended?, Extent.openBehind, if_pos (by omega)]
    rfl
  | _ => simp [extent?] at endless

end LexState.Starts

end XQueryLexer
