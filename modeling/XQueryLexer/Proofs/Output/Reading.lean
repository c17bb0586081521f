import Mathlib.Tactic.SplitIfs
import XQueryLexer.Json

/-! A reader of the indented text of structured data, which finds the data again. -/

namespace XQueryLexer.Json

namespace Reader

/-- A text in two parts is read part by part. -/
theorem run_append (reader : Reader) (first second : String) :
    reader.run (first ++ second) = (reader.run first).bind fun later => later.run second := by
  -- A run is a fold, and so is one over two parts.
  rw [run, String.toList_append, List.foldlM_append]
  rfl

/-- The numbers below sixteen have digits of their own. -/
theorem digit?_digitChar {number : Nat} (small : number < 16) :
    digit? number.digitChar = some number := by
  -- There are sixteen of them to check.
  revert number
  decide

variable (read : List Char) (frames : List Frame)

/-- A character that is written inside a string is read as itself. -/
theorem foldlM_escapeChar (c : Char) :
    (escapeChar c).foldlM step ⟨.text read, frames⟩ = some ⟨.text (read ++ [c]), frames⟩ := by
  unfold escapeChar
  -- Seven characters have a letter of their own behind the backslash.
  split_ifs with quotation backslash backspace feed newline carriage tabulator control
  · subst quotation; rfl
  · subst backslash; rfl
  · subst backspace; rfl
  · subst feed; rfl
  · subst newline; rfl
  · subst carriage; rfl
  · subst tabulator; rfl
  -- A control character is written by its number, whose last two digits are not always zero.
  · have high : digit? (c.toNat / 16).digitChar = some (c.toNat / 16) :=
      digit?_digitChar (by omega)
    have low : digit? (c.toNat % 16).digitChar = some (c.toNat % 16) :=
      digit?_digitChar (by omega)
    have zero : digit? '0' = some 0 := by decide
    have number : 16 * (c.toNat / 16) + c.toNat % 16 = c.toNat := Nat.div_add_mod _ 16
    simp [step, high, low, zero, number]
  · simp [step, quotation, backslash]

/-- The characters of a string are read as themselves. -/
theorem foldlM_escaped (text : List Char) :
    (text.flatMap escapeChar).foldlM step ⟨.text read, frames⟩ =
      some ⟨.text (read ++ text), frames⟩ := by
  -- What has been read grows by one character at a time.
  induction text generalizing read with
  | nil => simp
  | cons c rest ih =>
    rw [List.flatMap_cons, List.foldlM_append, foldlM_escapeChar]
    simpa using ih (read ++ [c])

/-- A string in quotation marks is read as the string. -/
theorem run_quote (text : String) :
    (⟨.between, frames⟩ : Reader).run (quote text) = put (.string text) frames := by
  -- The first mark opens the string, and the second one puts it in its place.
  have opened : step ⟨.between, frames⟩ '"' = some ⟨.text [], frames⟩ := rfl
  have closed : step ⟨.text text.toList, frames⟩ '"' = put (.string text) frames := by
    simp [step]
  rw [run, quote, String.toList_append, String.toList_append, String.toList_ofList,
    List.foldlM_append, List.foldlM_append]
  simp [opened, closed, foldlM_escaped]

/-- The start of a line is passed over. -/
theorem run_newline (depth : Nat) :
    (⟨.between, frames⟩ : Reader).run (newline depth) = some ⟨.between, frames⟩ := by
  -- Blanks between values are passed over, however many there are.
  have spaces (count : Nat) :
      (List.replicate count ' ').foldlM step ⟨.between, frames⟩ = some ⟨.between, frames⟩ := by
    induction count with
    | zero => rfl
    | succ count ih => exact ih
  have line : step ⟨.between, frames⟩ '\n' = some ⟨.between, frames⟩ := rfl
  simp [run, newline, line, spaces]

variable {reader : Reader}

mutual

/-- Behind a value that is written behind a text, a reader has the value in its place. -/
theorem run_write {frames : List Frame} {out : String} (depth : Nat)
    (ready : reader.run out = some ⟨.between, frames⟩) :
    (value : Json) → reader.run (value.write out depth) = put value frames
  | .string text => by
    rw [write, run_append, ready]
    exact run_quote frames text
  | .bool value => by
    rw [write, run_append, ready]
    cases value <;> simp [run, step]
  | .array [] => by
    rw [write, List.isEmpty_nil, if_pos rfl, run_append, ready]
    simp [run, step, put, Frame.close]
  | .array (value :: rest) => by
    have opened : reader.run (out ++ "[") = some ⟨.between, .array [] :: frames⟩ := by
      rw [run_append, ready]
      rfl
    -- The values are in the innermost list, which the bracket behind them closes.
    rw [write, List.isEmpty_cons, if_neg Bool.false_ne_true, run_append, run_append,
      run_writeValues (depth + 1) opened (value :: rest), Option.bind_some, run_newline]
    simp [run, step, put, Frame.close]
  | .object [] => by
    rw [write, List.isEmpty_nil, if_pos rfl, run_append, ready]
    simp [run, step, put, Frame.close]
  | .object (field :: rest) => by
    have opened : reader.run (out ++ "\x7b") = some ⟨.between, .object [] none :: frames⟩ := by
      rw [run_append, ready]
      rfl
    -- The fields are in the innermost object, which the brace behind them closes.
    rw [write, List.isEmpty_cons, if_neg Bool.false_ne_true, run_append, run_append,
      run_writeFields (depth + 1) opened (field :: rest), Option.bind_some, run_newline]
    simp [run, step, put, Frame.close]

/-- Behind values that are written behind a text, a reader has the values in the list. -/
theorem run_writeValues {frames : List Frame} {done : List Json} {out : String} (depth : Nat)
    (ready : reader.run out = some ⟨.between, .array done :: frames⟩) :
    (values : List Json) →
      reader.run (writeValues out depth values) = some ⟨.between, .array (done ++ values) :: frames⟩
  | [] => by
    rw [writeValues, List.append_nil, ready]
  | value :: rest => by
    have line : reader.run (out ++ newline depth) = some ⟨.between, .array done :: frames⟩ := by
      rw [run_append, ready]
      exact run_newline _ depth
    have written := run_write depth line value
    cases rest with
    | nil => exact written
    | cons next rest =>
      -- Behind the comma the list goes on with one value more in it.
      have comma : reader.run (value.write (out ++ newline depth) depth ++ ",") =
          some ⟨.between, .array (done ++ [value]) :: frames⟩ := by
        rw [run_append, written]
        rfl
      have later := run_writeValues depth comma (next :: rest)
      rw [List.append_assoc, List.singleton_append] at later
      exact later

/-- Behind named fields that are written behind a text, a reader has the fields in the object. -/
theorem run_writeFields {frames : List Frame} {done : List (String × Json)} {out : String}
    (depth : Nat)
    (ready : reader.run out = some ⟨.between, .object done none :: frames⟩) :
    (fields : List (String × Json)) →
      reader.run (writeFields out depth fields) =
        some ⟨.between, .object (done ++ fields) none :: frames⟩
  | [] => by
    rw [writeFields, List.append_nil, ready]
  | (name, value) :: rest => by
    -- The name waits in the object until its value comes.
    have named : reader.run (out ++ newline depth ++ quote name ++ ": ") =
        some ⟨.between, .object done (some name) :: frames⟩ := by
      rw [run_append, run_append, run_append, ready, Option.bind_some, run_newline,
        Option.bind_some, run_quote]
      rfl
    have written := run_write depth named value
    cases rest with
    | nil => exact written
    | cons next rest =>
      have comma : reader.run
          (value.write (out ++ newline depth ++ quote name ++ ": ") depth ++ ",") =
          some ⟨.between, .object (done ++ [(name, value)]) none :: frames⟩ := by
        rw [run_append, written]
        rfl
      have later := run_writeFields depth comma (next :: rest)
      rw [List.append_assoc, List.singleton_append] at later
      exact later

end

end Reader

/-- The text of a value is read as the value. -/
theorem read?_render (value : Json) : read? value.render = some value := by
  -- The reader starts in a list, in which the value is the only one when its text has been read.
  have ready : Reader.start.run "" = some ⟨.between, [.array []]⟩ := rfl
  have written : Reader.start.run value.render = some ⟨.between, [.array [value]]⟩ :=
    Reader.run_write 0 ready value
  rw [read?, written]

end XQueryLexer.Json
