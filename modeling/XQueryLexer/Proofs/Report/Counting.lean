import XQueryLexer.Proofs.Lexeme.Spans
import XQueryLexer.Proofs.Report.Place

/-! The place of a byte offset is counted from the newlines among the bytes of the source. -/

namespace XQueryLexer

/-- The byte of a newline, which is part of no other character. -/
def newlineByte : UInt8 :=
  10

/-- The bytes of a text. -/
def bytesOf (text : List Char) : List UInt8 :=
  text.flatMap String.utf8EncodeChar

section Bytes

variable {c : Char}

/-- An empty text has no bytes. -/
@[simp] theorem bytesOf_nil : bytesOf [] = [] := rfl

/-- The bytes of the first character come first. -/
@[simp] theorem bytesOf_cons (c : Char) (text : List Char) :
    bytesOf (c :: text) = String.utf8EncodeChar c ++ bytesOf text := rfl

/-- The bytes of two texts come one after the other. -/
@[simp] theorem bytesOf_append (first second : List Char) :
    bytesOf (first ++ second) = bytesOf first ++ bytesOf second :=
  List.flatMap_append

/-- A text has as many bytes as are counted for its characters. -/
@[simp] theorem length_bytesOf (text : List Char) : (bytesOf text).length = byteCount text := by
  -- Induction on the text: a character has as many bytes as its size says.
  induction text with
  | nil => rfl
  | cons c rest ih => simp [ih]

/-- The bytes of a source are those of its characters. -/
theorem toList_toByteArray (source : String) :
    source.toByteArray.data.toList = bytesOf source.toList := by
  -- A source is encoded character by character.
  rw [← @String.ofList_toList source, String.toByteArray_ofList, String.toList_ofList,
    List.utf8Encode, List.data_toByteArray]
  rfl

/-- Only the newline has the byte of a newline. -/
theorem newlineByte_not_mem (other : c ≠ '\n') : newlineByte ∉ String.utf8EncodeChar c := by
  have code : c.val.toNat ≠ 10 := fun same => other (Char.ext (UInt32.toNat_inj.mp same))
  have apart (value : Nat) (large : value % 256 ≠ 10) : newlineByte ≠ UInt8.ofNat value := by
    intro same
    have value_eq := congrArg UInt8.toNat same
    rw [UInt8.toNat_ofNat'] at value_eq
    exact large value_eq.symm
  -- A short character is its own byte, and each byte of a longer one is too large.
  unfold String.utf8EncodeChar
  dsimp only
  split
  · simp only [List.mem_singleton]
    exact apart _ (by omega)
  split
  · simp only [List.mem_cons, List.not_mem_nil, or_false, not_or]
    exact ⟨apart _ (by omega), apart _ (by omega)⟩
  split
  · simp only [List.mem_cons, List.not_mem_nil, or_false, not_or]
    exact ⟨apart _ (by omega), apart _ (by omega), apart _ (by omega)⟩
  · simp only [List.mem_cons, List.not_mem_nil, or_false, not_or]
    exact ⟨apart _ (by omega), apart _ (by omega), apart _ (by omega), apart _ (by omega)⟩

/-- Newlines are counted alike among the characters of a text and among its bytes. -/
theorem count_bytesOf (text : List Char) : (bytesOf text).count newlineByte = text.count '\n' := by
  induction text with
  | nil => rfl
  | cons c rest ih =>
    rw [bytesOf_cons, List.count_append, ih]
    -- A newline is a single byte, which stands in no other character.
    by_cases newline : c = '\n'
    · subst newline
      rw [List.count_cons_self, Nat.add_comm]
      rfl
    · rw [List.count_cons_of_ne newline, List.count_eq_zero.mpr (newlineByte_not_mem newline),
        Nat.zero_add]

/-- Without a newline in a text there is none among its bytes. -/
theorem newlineByte_not_mem_bytesOf {text : List Char} (single : '\n' ∉ text) :
    newlineByte ∉ bytesOf text := by
  -- To be missing is to be counted zero times.
  rw [← List.count_eq_zero, count_bytesOf, List.count_eq_zero]
  exact single

end Bytes

namespace Location

/-- The offset behind the last newline in front of an offset, or the beginning if there is none. -/
def lineStart (bytes : List UInt8) : Nat → Nat
  | 0 => 0
  | offset + 1 =>
    if bytes[offset]? = some newlineByte then offset + 1 else lineStart bytes offset

/-- The offset behind the first newline of the bytes from an offset on, or behind all of them. -/
def lineStop (offset : Nat) : List UInt8 → Nat
  | [] => offset
  | byte :: rest => if byte = newlineByte then offset + 1 else lineStop (offset + 1) rest

/-- A line starts behind bytes that end with a newline, if there is none behind them up to the
place. -/
theorem lineStart_append {before behind : List UInt8} {count : Nat}
    (closed : ∀ byte ∈ before.getLast?, byte = newlineByte)
    (single : newlineByte ∉ behind.take count) :
    lineStart (before ++ behind) (before.length + count) = before.length := by
  -- The search goes back over the bytes of the line first.
  induction count with
  | zero =>
    rcases List.eq_nil_or_concat' before with rfl | ⟨front, last, rfl⟩
    · rfl
    · obtain rfl := closed last (by simp)
      simp [lineStart]
  | succ count ih =>
    rw [List.take_add_one, List.mem_append, not_or] at single
    have other : (before ++ behind)[before.length + count]? ≠ some newlineByte := by
      rw [List.getElem?_append_right (Nat.le_add_right _ _), Nat.add_sub_cancel_left]
      exact fun found => single.2 (by simp [found])
    rw [← Nat.add_assoc, lineStart, if_neg other, ih single.1]

/-- The end of a line is looked for behind bytes without a newline. -/
theorem lineStop_append {bytes : List UInt8} (single : newlineByte ∉ bytes) (offset : Nat)
    (rest : List UInt8) :
    lineStop offset (bytes ++ rest) = lineStop (offset + bytes.length) rest := by
  -- Induction on the bytes, none of which ends the line.
  induction bytes generalizing offset with
  | nil => rfl
  | cons byte bytes ih =>
    obtain ⟨other, later⟩ := not_or.mp (List.mem_cons.not.mp single)
    rw [List.cons_append, lineStop, if_neg (Ne.symm other), ih later, List.length_cons,
      Nat.add_right_comm, Nat.add_assoc]

/-- Behind a place a line has the bytes of its characters. -/
theorem lineStop_bytesOf (offset : Nat) (back : List Char) :
    lineStop offset (bytesOf back) = offset + byteCount (lineAfter back) := by
  induction back generalizing offset with
  | nil => rfl
  | cons c rest ih =>
    rw [bytesOf_cons, lineAfter]
    by_cases newline : c = '\n'
    · -- A newline ends the line, and belongs to it.
      subst newline
      rfl
    · -- Any other character belongs to the line with all its bytes.
      rw [lineStop_append (newlineByte_not_mem newline), ih, if_neg newline, byteCount_cons,
        String.length_utf8EncodeChar, Nat.add_assoc]

variable {front back : List Char} {extra : Nat}

/-- Between a place inside a character and the start of the character there is no newline. -/
theorem newlineByte_not_mem_take (inside : extra < (back.head?.map Char.utf8Size).getD 1) :
    newlineByte ∉ (bytesOf back).take extra := by
  cases back with
  | nil => simp
  | cons c rest =>
    simp only [List.head?_cons, Option.map_some, Option.getD_some] at inside
    rw [bytesOf_cons, List.take_append_of_le_length (by simpa using Nat.le_of_lt inside)]
    by_cases newline : c = '\n'
    · -- A newline is a single byte, so that the place is in front of it.
      subst newline
      obtain rfl : extra = 0 := Nat.lt_one_iff.mp inside
      simp
    · exact fun member => newlineByte_not_mem newline (List.mem_of_mem_take member)

/-- From a place inside a character the line ends where it does from the start of the character. -/
theorem lineStop_inside (inside : extra < (back.head?.map Char.utf8Size).getD 1) (offset : Nat) :
    lineStop (offset + extra) ((bytesOf back).drop extra) =
      offset + byteCount (lineAfter back) := by
  have within : extra ≤ (bytesOf back).length := by
    cases back with
    | nil => simpa using inside
    | cons c rest =>
      simp only [List.head?_cons, Option.map_some, Option.getD_some] at inside
      simp only [length_bytesOf, byteCount_cons]
      omega
  -- The search could as well have begun with the bytes that are passed over.
  have passed :=
    lineStop_append (newlineByte_not_mem_take inside) offset ((bytesOf back).drop extra)
  rw [List.take_append_drop, lineStop_bytesOf, List.length_take_of_le within] at passed
  exact passed.symm

/-- Every offset of a text is in front of a character of it, inside the character, or at the end. -/
theorem exists_split_of_le (text : List Char) {offset : Nat} (within : offset ≤ byteCount text) :
    ∃ front back extra, text = front ++ back ∧ offset = byteCount front + extra ∧
      extra < (back.head?.map Char.utf8Size).getD 1 := by
  induction text generalizing offset with
  | nil => exact ⟨[], [], offset, rfl, (Nat.zero_add _).symm, by simpa using within⟩
  | cons c rest ih =>
    -- The offset is inside the first character, or it is one into the rest.
    by_cases first : offset < c.utf8Size
    · exact ⟨[], c :: rest, offset, rfl, (Nat.zero_add _).symm, first⟩
    · rw [byteCount_cons] at within
      obtain ⟨front, back, extra, split, offset_eq, inside⟩ :=
        @ih (offset - c.utf8Size) (by omega)
      have later : offset = byteCount (c :: front) + extra := by
        rw [byteCount_cons]
        omega
      exact ⟨c :: front, back, extra, congrArg (c :: ·) split, later, inside⟩

/-- What is in front of a line ends with a newline, if there is anything. -/
theorem exists_lineBefore_eq (front : List Char) : ∃ before,
    front = before ++ lineBefore front ∧ ∀ c ∈ before.getLast?, c = '\n' := by
  -- The line is cut off at the last newline.
  refine ⟨front.rdropWhile (· ≠ '\n'), List.rdropWhile_append_rtakeWhile.symm, ?_⟩
  intro c last
  have filled : front.rdropWhile (· ≠ '\n') ≠ [] := by
    intro nothing
    rw [nothing] at last
    cases last
  have ends := List.rdropWhile_last_not (· ≠ '\n') front filled
  rw [(List.getLast_eq_iff_getLast?_eq_some filled).mpr last] at ends
  simpa using ends

/-- Behind a place a line is where the text behind the place starts. -/
theorem exists_lineAfter_eq (back : List Char) : ∃ behind, back = lineAfter back ++ behind := by
  induction back with
  | nil => exact ⟨[], rfl⟩
  | cons c rest ih =>
    obtain ⟨behind, rest_eq⟩ := ih
    rw [lineAfter]
    -- The line goes on until the first newline, or to the end.
    split
    · exact ⟨rest, rfl⟩
    · exact ⟨behind, congrArg (c :: ·) rest_eq⟩

/-- The bytes of a text end with that of a newline if the text does. -/
theorem getLast?_bytesOf {before : List Char} (closed : ∀ c ∈ before.getLast?, c = '\n') :
    ∀ byte ∈ (bytesOf before).getLast?, byte = newlineByte := by
  intro byte last
  rcases List.eq_nil_or_concat' before with rfl | ⟨front, c, rfl⟩
  · simp at last
  · -- The last character is a newline, whose only byte is the last one.
    obtain rfl := closed c (by simp)
    rw [bytesOf_append, List.getLast?_append_of_ne_nil _ (by simp [bytesOf])] at last
    exact (Option.some.inj last).symm

/-- The line of a place starts as many bytes in front of it as the line has there. -/
theorem lineStart_bytesOf (inside : extra < (back.head?.map Char.utf8Size).getD 1) :
    lineStart (bytesOf front ++ bytesOf back) (byteCount front + extra) +
      byteCount (lineBefore front) = byteCount front := by
  obtain ⟨before, front_eq, closed⟩ := exists_lineBefore_eq front
  generalize lineBefore_eq : lineBefore front = line at front_eq
  have open_line : '\n' ∉ line := by
    rw [← lineBefore_eq]
    exact fun newline => by simpa using List.mem_rtakeWhile_imp newline
  -- From the place back to the start of the line there is no newline.
  have single : newlineByte ∉ (bytesOf line ++ bytesOf back).take (byteCount line + extra) := by
    rw [← length_bytesOf, List.take_length_add_append, List.mem_append, not_or]
    exact ⟨newlineByte_not_mem_bytesOf open_line, newlineByte_not_mem_take inside⟩
  have start_eq := lineStart_append (getLast?_bytesOf closed) single
  rw [length_bytesOf] at start_eq
  rw [front_eq, bytesOf_append, byteCount_append, List.append_assoc, Nat.add_assoc, start_eq]

/-- The line of a place is found among the bytes of the source by where it starts and ends. -/
theorem extract_line {source : String} (split : source.toList = front ++ back) {start : Nat}
    (start_eq : start + byteCount (lineBefore front) = byteCount front) :
    source.toByteArray.extract start (byteCount front + byteCount (lineAfter back)) =
      (String.ofList (lineBefore front ++ lineAfter back)).toByteArray := by
  obtain ⟨before, front_eq, -⟩ := exists_lineBefore_eq front
  obtain ⟨behind, back_eq⟩ := exists_lineAfter_eq back
  generalize lineBefore front = line at *
  generalize lineAfter back = rest at *
  subst front_eq back_eq
  -- The source is what is before the line, the line and what is behind it.
  have whole : source = .ofList before ++ .ofList (line ++ rest) ++ .ofList behind := by
    apply String.ext
    simp [split]
  have size : start = byteCount before := by
    rw [byteCount_append] at start_eq
    omega
  have middle := extract_middle (.ofList before) (.ofList (line ++ rest)) (.ofList behind)
  rw [← whole, String.utf8ByteSize_append] at middle
  simp only [utf8ByteSize_ofList, byteCount_append] at middle
  rw [size, byteCount_append, Nat.add_assoc]
  exact middle

/-- Offsets past the end of a source count as the end. -/
theorem ofOffset_min (source : String) (offset : Nat) :
    ofOffset source (min offset source.utf8ByteSize) = ofOffset source offset := by
  -- An offset is cut to the size of the source before anything else.
  rw [ofOffset, ofOffset, Nat.min_assoc, Nat.min_self]

/-- The place of an offset in a source is found by counting: the line has the number of newlines in
front of the offset, it reaches from behind the last of them to behind the next one from the offset
on, and the column is how far the offset is behind its start. -/
theorem ofOffset_counted (source : String) (offset : Nat) :
    let bytes := source.toByteArray.data.toList
    let place := min offset source.utf8ByteSize
    (ofOffset source offset).line = 1 + (bytes.take place).count newlineByte ∧
      (ofOffset source offset).text.toByteArray =
        source.toByteArray.extract (lineStart bytes place)
          (lineStop place (bytes.drop place)) ∧
      lineStart bytes place + (ofOffset source offset).column = place := by
  intro bytes place
  -- The offset falls into a character or behind all of them.
  have within : place ≤ byteCount source.toList :=
    utf8ByteSize_eq_byteCount source ▸ Nat.min_le_right _ _
  obtain ⟨front, back, extra, split, place_eq, inside⟩ := exists_split_of_le source.toList within
  have found : ofOffset source offset = ⟨1 + front.count '\n',
      .ofList (lineBefore front ++ lineAfter back), byteCount (lineBefore front) + extra⟩ := by
    rw [← ofOffset_min, ← ofOffset_eq split inside, ← place_eq]
  have bytes_eq : bytes = bytesOf front ++ bytesOf back := by
    rw [← bytesOf_append, ← split]
    exact toList_toByteArray source
  have start_eq := @lineStart_bytesOf front back extra inside
  rw [found, bytes_eq, place_eq]
  refine ⟨?_, ?_, ?_⟩
  · -- The bytes between the start of the character and the offset are no newlines.
    rw [← length_bytesOf front, List.take_length_add_append, List.count_append, count_bytesOf,
      List.count_eq_zero.mpr (newlineByte_not_mem_take inside), Nat.add_zero]
  · rw [← length_bytesOf front, List.drop_length_add_append, length_bytesOf,
      lineStop_inside inside, extract_line split start_eq]
  · dsimp only
    omega

/-- An offset inside the only character of the second line is one byte behind its start. -/
example : ofOffset "é\né" 4 = ⟨2, "é", 1⟩ := by decide +kernel

end Location

end XQueryLexer
