import Mathlib.Data.List.DropRight
import XQueryLexer.Proofs.Lexeme.Scanning
import XQueryLexer.Report

/-! The line of a place in a source is what stands around the place up to the nearest newlines. -/

namespace XQueryLexer

/-- A text is cut in one way only in front of which there are some number of bytes. -/
theorem append_inj_of_byteCount {first second other others : List Char}
    (same : first ++ second = other ++ others) (size : byteCount first = byteCount other) :
    first = other ∧ second = others := by
  -- A character more on one side would be a byte more there.
  induction first generalizing other with
  | nil =>
    cases other with
    | nil => exact ⟨rfl, same⟩
    | cons c rest =>
      have := c.utf8Size_pos
      rw [byteCount_nil, byteCount_cons] at size
      omega
  | cons c first ih =>
    cases other with
    | nil =>
      have := c.utf8Size_pos
      rw [byteCount_nil, byteCount_cons] at size
      omega
    | cons d rest =>
      obtain ⟨rfl, behind⟩ := List.cons.inj same
      obtain ⟨rfl, rfl⟩ := ih behind (Nat.add_left_cancel size)
      exact ⟨rfl, rfl⟩

namespace Location

/-- The characters in front of a place that stand in its line. -/
def lineBefore (front : List Char) : List Char :=
  front.rtakeWhile (· ≠ '\n')

/-- The characters behind a place that stand in its line, with the newline that ends the line. -/
def lineAfter : List Char → List Char
  | [] => []
  | c :: rest => if c = '\n' then [c] else c :: lineAfter rest

/-- What stands behind a place in its line starts with the character behind the place. -/
theorem head?_lineAfter (back : List Char) : (lineAfter back).head? = back.head? := by
  -- A line ends with its newline, which belongs to it as well.
  cases back with
  | nil => rfl
  | cons c rest =>
    rw [lineAfter]
    split <;> rfl

/-- Nothing in front of a newline is in the line of a place behind it. -/
theorem lineBefore_newline (first second : List Char) :
    lineBefore (first ++ '\n' :: second) = lineBefore second := by
  -- The induction is on the characters behind the newline, from the place back to it.
  induction second using List.reverseRecOn with
  | nil => simp [lineBefore]
  | append_singleton second c ih =>
    have last : first ++ '\n' :: (second ++ [c]) = (first ++ '\n' :: second) ++ [c] := by simp
    rw [last]
    simp only [lineBefore, List.rtakeWhile_concat] at ih ⊢
    rw [ih]

/-- Without a newline in front of a place everything there is in its line. -/
theorem lineBefore_of_not_mem {front : List Char} (single : '\n' ∉ front) :
    lineBefore front = front := by
  -- The line goes back to the last newline, and there is none.
  refine List.rtakeWhile_eq_self_iff.mpr fun c member => ?_
  have other : c ≠ '\n' := fun newline => single (newline ▸ member)
  simpa using other

/-- The lines that are done stand in front of all others. -/
theorem linesFrom_done (done : List String) (current : String) (text : List Char) :
    linesFrom done current text = done.reverse ++ linesFrom [] current text := by
  -- Reading adds to the lines that are done, and it never looks at them.
  induction text generalizing done current with
  | nil => simp [linesFrom]
  | cons c rest ih =>
    simp only [linesFrom]
    split
    · rw [ih (current.push c :: done), ih [current.push c]]
      simp
    · exact ih done _

/-- A line goes on with the next character. -/
theorem push_ofList (current : List Char) (c : Char) :
    (String.ofList current).push c = .ofList (current ++ [c]) := by
  -- Texts are the same if their characters are.
  apply String.ext
  simp

/-- The first line is what has been read of it and what is behind that up to the next newline. -/
theorem exists_linesFrom_eq (current text : List Char) : ∃ others,
    linesFrom [] (.ofList current) text = .ofList (current ++ lineAfter text) :: others := by
  -- The induction is on what is still to be read, with every begun line.
  induction text generalizing current with
  | nil => exact ⟨[], by simp [linesFrom, lineAfter]⟩
  | cons c rest ih =>
    simp only [linesFrom, lineAfter, push_ofList]
    split
    · rename_i newline
      rw [linesFrom_done, newline]
      exact ⟨_, rfl⟩
    · obtain ⟨others, first⟩ := ih (current ++ [c])
      exact ⟨others, by simpa using first⟩

/-- A place in the first of some lines is found there. -/
theorem among_first {line offset : Nat} {text : String} {others : List String}
    (within : others = [] ∨ offset < text.utf8ByteSize) :
    among line offset (text :: others) = ⟨line, text, offset⟩ := by
  -- The last line takes every offset, and an earlier one those inside it.
  cases others with
  | nil => rfl
  | cons next others => exact if_pos (within.resolve_left (List.cons_ne_nil _ _))

/-- A place behind the first of some lines is looked for in the others. -/
theorem among_later {line offset : Nat} {text : String} {others : List String}
    (follows : others ≠ []) (behind : text.utf8ByteSize ≤ offset) :
    among line offset (text :: others) = among (line + 1) (offset - text.utf8ByteSize) others := by
  -- An offset that is not inside the line is looked for in the others.
  cases others with
  | nil => exact absurd rfl follows
  | cons next others => exact if_neg (Nat.not_lt.mpr behind)

variable {current front back : List Char} {extra : Nat}

/-- A place inside the character behind it is in front of the end of the line. -/
theorem lt_byteCount_lineAfter (filled : back ≠ [])
    (inside : extra < (back.head?.map Char.utf8Size).getD 1) :
    extra < byteCount (lineAfter back) := by
  cases back with
  | nil => exact absurd rfl filled
  -- The character behind the place is in the line, with all its bytes.
  | cons c rest =>
    simp only [List.head?_cons, Option.map_some, Option.getD_some] at inside
    rw [lineAfter]
    split
    · simpa using inside
    · rw [byteCount_cons]
      omega

/-- A place is found in the line that its front ends in, where the first line has been begun. -/
theorem among_linesFrom (line : Nat) (begun : '\n' ∉ current)
    (inside : extra < (back.head?.map Char.utf8Size).getD 1) :
    among line (byteCount (current ++ front) + extra)
        (linesFrom [] (.ofList current) (front ++ back)) =
      ⟨line + front.count '\n', .ofList (lineBefore (current ++ front) ++ lineAfter back),
        byteCount (lineBefore (current ++ front)) + extra⟩ := by
  -- The induction goes through the front, which either adds to the line or ends it.
  induction front generalizing current line with
  | nil =>
    obtain ⟨others, first⟩ := exists_linesFrom_eq current back
    rw [List.append_nil, List.nil_append, first, lineBefore_of_not_mem begun, among_first]
    · simp
    · -- The place is in front of the end of the line, unless this is the end of the source.
      cases back with
      | nil => exact .inl (List.cons.inj first).2.symm
      | cons c rest =>
        have short := lt_byteCount_lineAfter (List.cons_ne_nil c rest) inside
        rw [utf8ByteSize_ofList, byteCount_append]
        exact .inr (by omega)
  | cons c front ih =>
    rw [List.cons_append, linesFrom, push_ofList]
    by_cases newline : c = '\n'
    · -- The line is done, and the place is counted from its end on.
      subst newline
      obtain ⟨others, next⟩ := exists_linesFrom_eq [] (front ++ back)
      have follows : linesFrom [] "" (front ++ back) ≠ [] := by
        rw [show "" = String.ofList [] from rfl, next]
        exact List.cons_ne_nil _ _
      have later := @ih [] (line + 1) (by simp)
      rw [if_pos rfl, linesFrom_done, List.reverse_singleton, List.singleton_append,
        among_later follows, utf8ByteSize_ofList, lineBefore_newline, List.count_cons_self]
      · have left : byteCount (current ++ '\n' :: front) + extra - byteCount (current ++ ['\n']) =
            byteCount ([] ++ front) + extra := by
          simp
          omega
        rw [left, show "" = String.ofList [] from rfl, later]
        simp
        omega
      · rw [utf8ByteSize_ofList, byteCount_append, byteCount_append, byteCount_cons, byteCount_cons,
          byteCount_nil]
        omega
    · have longer : '\n' ∉ current ++ [c] := by simpa [begun] using Ne.symm newline
      have later := ih line longer
      rw [List.append_assoc, List.singleton_append] at later
      rw [if_neg newline, later, List.count_cons_of_ne newline]

/-- The place of an offset is counted in the front that it is at the end of, or up to one character
behind it. -/
theorem ofOffset_eq {source : String} (split : source.toList = front ++ back)
    (inside : extra < (back.head?.map Char.utf8Size).getD 1) :
    ofOffset source (byteCount front + extra) =
      ⟨1 + front.count '\n', .ofList (lineBefore front ++ lineAfter back),
        byteCount (lineBefore front) + extra⟩ := by
  -- An offset that is inside the source is not moved back to its end.
  have within : byteCount front + extra ≤ source.utf8ByteSize := by
    rw [utf8ByteSize_eq_byteCount, split, byteCount_append]
    cases back with
    | nil =>
      obtain rfl : extra = 0 := by simpa using inside
      simp
    | cons c rest =>
      simp only [List.head?_cons, Option.map_some, Option.getD_some] at inside
      rw [byteCount_cons]
      omega
  rw [ofOffset, Nat.min_eq_left within, lines, split]
  exact @among_linesFrom [] front back extra 1 (by simp) inside

end Location

end XQueryLexer
