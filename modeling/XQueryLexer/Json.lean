/-! Structured data, its indented text, and a reader that finds the data in the text again. -/

namespace XQueryLexer

/-- A value made of texts, truth values, lists and named fields. -/
inductive Json where
  | string (text : String)
  | bool (value : Bool)
  | array (values : List Json)
  | object (fields : List (String × Json))
  deriving Repr

namespace Json

/-- A character as it is written inside a string. -/
def escapeChar (c : Char) : List Char :=
  if c = '"' then ['\\', '"']
  else if c = '\\' then ['\\', '\\']
  else if c = '\x08' then ['\\', 'b']
  else if c = '\x0c' then ['\\', 'f']
  else if c = '\n' then ['\\', 'n']
  else if c = '\r' then ['\\', 'r']
  else if c = '\t' then ['\\', 't']
  else if c.toNat < 0x20 then
    ['\\', 'u', '0', '0', Nat.digitChar (c.toNat / 16), Nat.digitChar (c.toNat % 16)]
  else [c]

/-- A string in quotation marks. -/
def quote (text : String) : String :=
  "\"" ++ .ofList (text.toList.flatMap escapeChar) ++ "\""

/-- The start of a line inside a number of brackets. -/
def newline (depth : Nat) : String :=
  "\n" ++ .ofList (List.replicate (2 * depth) ' ')

mutual

/-- Writes a value behind a text, inside a number of brackets. -/
def write (out : String) (depth : Nat) : Json → String
  | string text => out ++ quote text
  | bool value => out ++ if value then "true" else "false"
  | array values =>
    if values.isEmpty then out ++ "[]"
    else writeValues (out ++ "[") (depth + 1) values ++ newline depth ++ "]"
  | object fields =>
    if fields.isEmpty then out ++ "\x7b\x7d"
    else writeFields (out ++ "\x7b") (depth + 1) fields ++ newline depth ++ "\x7d"

/-- Writes values behind a text, each on lines of its own and with commas between them. -/
def writeValues (out : String) (depth : Nat) : List Json → String
  | [] => out
  | value :: rest =>
    let written := value.write (out ++ newline depth) depth
    if rest.isEmpty then written else writeValues (written ++ ",") depth rest

/-- Writes named fields behind a text, each on lines of its own and with commas between them. -/
def writeFields (out : String) (depth : Nat) : List (String × Json) → String
  | [] => out
  | (name, value) :: rest =>
    let written := value.write (out ++ newline depth ++ quote name ++ ": ") depth
    if rest.isEmpty then written else writeFields (written ++ ",") depth rest

end

/-- The indented text of a value. -/
def render (value : Json) : String :=
  value.write "" 0

/-- A list or an object whose end is not read yet. -/
inductive Frame where
  | array (values : List Json)
  | object (fields : List (String × Json)) (name : Option String)

namespace Frame

/-- The frames with a value in the innermost one, where an object takes a name first. -/
def place (value : Json) : List Frame → Option (List Frame)
  | array values :: outer => some (array (values ++ [value]) :: outer)
  | object fields (some name) :: outer => some (object (fields ++ [(name, value)]) none :: outer)
  | object fields none :: outer =>
    match value with
    | .string name => some (object fields (some name) :: outer)
    | _ => none
  | [] => none

/-- The frames with the innermost one closed and put in its place as a value. -/
def close : List Frame → Option (List Frame)
  | array values :: outer => place (.array values) outer
  | object fields none :: outer => place (.object fields) outer
  | _ => none

end Frame

/-- What a reader is in the middle of, with what it has read of that. -/
inductive Part where
  | between
  | text (read : List Char)
  | escape (read : List Char)
  | code (read : List Char) (digits : List Nat)
  | word (read : List Char)

/-- A reader of the text of structured data. -/
structure Reader where
  /-- What the reader is in the middle of. -/
  part : Part
  /-- The lists and objects that are open, the innermost first. -/
  frames : List Frame

namespace Reader

/-- A reader in front of a text, whose values it gathers in a list. -/
def start : Reader :=
  ⟨.between, [.array []]⟩

/-- A reader behind a value. -/
def put (value : Json) (frames : List Frame) : Option Reader :=
  (Frame.place value frames).map (⟨.between, ·⟩)

/-- The character that a letter behind a backslash stands for. -/
def escaped? : Char → Option Char
  | '"' => some '"'
  | '\\' => some '\\'
  | 'b' => some '\x08'
  | 'f' => some '\x0c'
  | 'n' => some '\n'
  | 'r' => some '\r'
  | 't' => some '\t'
  | _ => none

/-- The number of a hexadecimal digit. -/
def digit? (c : Char) : Option Nat :=
  (List.range 16).find? fun number => number.digitChar = c

/-- A reader behind one more character. -/
def step (reader : Reader) (c : Char) : Option Reader :=
  match reader.part with
  | .between =>
    if c = '"' then some { reader with part := .text [] }
    else if c = '[' then some { reader with frames := .array [] :: reader.frames }
    else if c = '\x7b' then some { reader with frames := .object [] none :: reader.frames }
    else if c = ']' ∨ c = '\x7d' then (Frame.close reader.frames).map (⟨.between, ·⟩)
    -- Where a value belongs is clear without the marks between the values.
    else if c = ' ' ∨ c = '\n' ∨ c = ',' ∨ c = ':' then some reader
    else some { reader with part := .word [c] }
  | .text read =>
    if c = '"' then put (.string (.ofList read)) reader.frames
    else if c = '\\' then some { reader with part := .escape read }
    else some { reader with part := .text (read ++ [c]) }
  | .escape read =>
    if c = 'u' then some { reader with part := .code read [] }
    else (escaped? c).map fun letter => { reader with part := .text (read ++ [letter]) }
  | .code read digits =>
    (digit? c).map fun digit =>
      if digits.length < 3 then { reader with part := .code read (digits ++ [digit]) }
      else
        let code := (digits ++ [digit]).foldl (fun code digit => 16 * code + digit) 0
        { reader with part := .text (read ++ [.ofNat code]) }
  | .word read =>
    if read ++ [c] = ['t', 'r', 'u', 'e'] then put (.bool true) reader.frames
    else if read ++ [c] = ['f', 'a', 'l', 's', 'e'] then put (.bool false) reader.frames
    else some { reader with part := .word (read ++ [c]) }

/-- A reader behind a text. -/
def run (reader : Reader) (text : String) : Option Reader :=
  text.toList.foldlM step reader

end Reader

/-- The value whose text is given, if it is the text of one value. -/
def read? (text : String) : Option Json :=
  match Reader.start.run text with
  | some ⟨.between, [.array [value]]⟩ => some value
  | _ => none

end Json

end XQueryLexer
