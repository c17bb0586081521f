/-! The fixed characters and words of the expression language that the lexer recognises. -/

namespace XQueryLexer

/-- Whether a character is whitespace in the expression language. -/
def isSpace (c : Char) : Bool :=
  c = ' ' || c = '\t' || c = '\n' || c = '\r' || c = '\x0c'

/-- The characters that are operators by themselves and end any word before them. -/
def separators : List Char :=
  ['!', '*', '+', ',', '-', '.', '/', ':', '<', '=', '>', '?', '|']

/-- The operators that are written with two characters. -/
def pairedSeparators : List (Char × Char) :=
  [('!', '='), ('*', ':'), ('.', '.'), ('/', '/'), (':', '*'), (':', ':'), (':', '='),
    ('<', '<'), ('<', '='), ('=', '>'), ('>', '='), ('>', '>'), ('|', '|')]

/-- Whether a word is an operator that is written with two characters. -/
def isPairedSeparator (word : String) : Bool :=
  match word.toList with
  | [first, second] => pairedSeparators.contains (first, second)
  | _ => false

/-- Two characters are such an operator exactly if they are listed. -/
theorem isPairedSeparator_ofList (first second : Char) :
    isPairedSeparator (.ofList [first, second]) = pairedSeparators.contains (first, second) := by
  -- The characters of the word are the two that it is made of.
  rw [isPairedSeparator, String.toList_ofList]

/-- The names of axes, which a double colon follows. -/
def axes : List String :=
  ["ancestor", "ancestor-or-self", "attribute", "child", "descendant", "descendant-or-self",
    "following", "following-sibling", "namespace", "parent", "preceding", "preceding-sibling",
    "self"]

/-- The names of node tests, which a round bracket follows. -/
def nodeTypes : List String :=
  ["attribute", "comment", "document-node", "element", "empty-sequence", "item",
    "namespace-node", "node", "processing-instruction", "schema-attribute", "schema-element",
    "text"]

/-- The names that are operators wherever an operator can stand. -/
def keywords : List String :=
  ["and", "array", "as", "div", "else", "eq", "except", "function", "ge", "gt", "idiv", "if",
    "in", "intersect", "is", "le", "lt", "map", "mod", "ne", "of", "or", "return", "satisfies",
    "then", "to", "treat", "union"]

/-- The names that declare the variable after them. -/
def rangeBinders : List String :=
  ["every", "for", "let", "some"]

/-- The operators that are written as two names. -/
def wordPairs : List (String × String) :=
  [("cast", "as"), ("castable", "as"), ("instance", "of")]

/-- Whether two names in a row are one operator. -/
def isWordPair (first second : String) : Bool :=
  wordPairs.contains (first, second)

end XQueryLexer
