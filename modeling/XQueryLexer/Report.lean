import XQueryLexer.Fault

/-! The line of a source on which a byte offset falls, and diagnostics shown under that line. -/

namespace XQueryLexer

/-- A place in a source as a reader counts it. -/
structure Location where
  /-- The number of the line, starting from one. -/
  line : Nat
  /-- The line with the newline that ends it, if one does. -/
  text : String
  /-- The byte offset within the line. -/
  column : Nat
  deriving DecidableEq, Repr

namespace Location

/-- The lines of a text, of which each but the last ends with its newline, after those done. -/
def linesFrom (done : List String) (current : String) : List Char → List String
  | [] => (current :: done).reverse
  | c :: rest =>
    if c = '\n' then linesFrom (current.push c :: done) "" rest
    else linesFrom done (current.push c) rest

/-- The lines of a source, of which the last one holds what no newline ends. -/
def lines (source : String) : List String :=
  linesFrom [] "" source.toList

/-- The place of an offset among lines that start with a given number. -/
def among (line offset : Nat) : List String → Location
  | [] => ⟨line, "", offset⟩
  | [last] => ⟨line, last, offset⟩
  | text :: rest =>
    if offset < text.utf8ByteSize then ⟨line, text, offset⟩
    else among (line + 1) (offset - text.utf8ByteSize) rest

/-- The place of a byte offset in a source, where offsets past the end count as the end. -/
def ofOffset (source : String) (offset : Nat) : Location :=
  among 1 (min offset source.utf8ByteSize) (lines source)

/-- Whether a character indents the line that it starts. -/
def indents (c : Char) : Bool :=
  c = ' ' || c = '\t'

/-- The number of characters that indent the line. -/
def indentation (place : Location) : Nat :=
  (place.text.toList.takeWhile indents).length

/-- The line as it is shown, without its indentation and without the white space at its end. -/
def excerpt (place : Location) : String :=
  Text.trimEnd (.ofList (place.text.toList.dropWhile indents))

/-- The number of columns before the place when the line is shown without its indentation. -/
def shownColumn (place : Location) : Nat :=
  place.column - place.indentation

end Location

namespace Diagnostic

/-- The first line of a report, which names the fault and gives advice where there is any. -/
def headline (diagnostic : Diagnostic) : String :=
  match diagnostic.fault.tip with
  | .none => "Error: " ++ diagnostic.fault.name
  | .suggestion text => "Error: " ++ diagnostic.fault.name ++ " (" ++ text ++ ")"

/-- The lines that show a diagnostic in its source, which came from a named origin. -/
def reportLines (diagnostic : Diagnostic) (source origin : String) : List String :=
  let place := Location.ofOffset source diagnostic.position.toNat
  let number := toString place.line
  -- The bars stand in the column of the bar after the line number.
  let bar := Text.padLeft (number.length + 2) ' ' "|"
  [diagnostic.headline,
    "-> " ++ origin,
    bar,
    number ++ " | " ++ place.excerpt,
    bar ++ " " ++ Text.padLeft (place.shownColumn + 1) '-' "^"]

/-- The text that shows a diagnostic in its source, which came from a named origin. -/
def report (diagnostic : Diagnostic) (source origin : String) : String :=
  String.join ((diagnostic.reportLines source origin).map (· ++ "\n"))

end Diagnostic

end XQueryLexer
