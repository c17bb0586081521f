import XQueryLexer.Json
import XQueryLexer.Text.Display
import XQueryLexer.Token

/-! Token forests written out: as indented tables, as structured data, and as outlines without
whitespace and lexical classes, which are easy to compare. -/

namespace XQueryLexer

/-- What a token means, without how and where it is written. -/
structure Gist where
  /-- The text of the token. -/
  value : String
  /-- The role of the token. -/
  kind : Kind
  /-- Whether the token closes a bracket that is not open. -/
  error : Bool
  deriving DecidableEq, Repr

/-- The gist of a token. -/
def Token.gist (token : Token) : Gist :=
  ⟨token.value, token.kind, token.error⟩

/-- The gists of a forest, without its whitespace at every depth. -/
def Forest.outline (forest : Forest Token) : Forest Gist :=
  Forest.map Token.gist (Forest.prune (fun token => token.state ≠ .whitespace) forest)

/-- The width of the columns for values and for lexical classes. -/
def columnWidth : Nat :=
  16

/-- The line for one token of a forest, without the newline that ends it. -/
def Row.listingLine (row : Row Token) : String :=
  let value := Text.fill (2 * row.depth) ' ' ++ Text.escape .bare row.item.value
  Text.padRight columnWidth value ++ Text.padRight columnWidth row.item.state.name ++
    row.item.kind.name ++ if row.item.error then " error" else ""

/-- The table of a forest. -/
def Forest.listing (forest : Forest Token) : String :=
  String.join ((Forest.rows 0 forest).map fun row => row.listingLine ++ "\n")

mutual

/-- A tree as an object, whose fields are those of its item and of the list inside it, if any. -/
def Tree.toJson {α : Type} (fields : α → Option Json → List (String × Json)) : Tree α → Json
  | .leaf item => .object (fields item none)
  | .group item inside => .object (fields item (some (.array (Forest.toJsonList fields inside))))

/-- The objects of the trees of a forest. -/
def Forest.toJsonList {α : Type} (fields : α → Option Json → List (String × Json)) :
    List (Tree α) → List Json
  | [] => []
  | tree :: rest => tree.toJson fields :: Forest.toJsonList fields rest

end

/-- The field for the list inside an item, which is left out where there is no list. -/
def childrenField (children : Option Json) : List (String × Json) :=
  (children.map fun list => ("children", list)).toList

/-- The field that marks an error, which is left out where there is none. -/
def errorField (error : Bool) : List (String × Json) :=
  if error then [("error", .bool true)] else []

/-- The fields of a token. -/
def Token.fields (token : Token) (children : Option Json) : List (String × Json) :=
  [("value", .string token.value), ("state", .string token.state.name),
    ("kind", .string token.kind.name)] ++ childrenField children ++ errorField token.error

/-- The fields of a gist. -/
def Gist.fields (gist : Gist) (children : Option Json) : List (String × Json) :=
  [("value", .string gist.value), ("kind", .string gist.kind.name)] ++
    errorField gist.error ++ childrenField children

/-- The whole of a forest as structured data. -/
def Forest.dump (forest : Forest Token) : String :=
  (Json.array (Forest.toJsonList Token.fields forest)).render

/-- The outline of a forest as structured data. -/
def Forest.dumpOutline (forest : Forest Token) : String :=
  (Json.array (Forest.toJsonList Gist.fields (Forest.outline forest))).render

section

variable {β : Type} (item? : List (String × Json) → Option β)

mutual

/-- The tree that an object describes, if it does, where its item is read from the fields. -/
def Tree.ofJson? : Json → Option (Tree β)
  | .object fields => (item? fields).bind fun item =>
    (Forest.inside? fields).map fun
      | none => .leaf item
      | some inside => .group item inside
  | _ => none

/-- The forest in the field for the list inside an item, or none if there is no such field. -/
def Forest.inside? : List (String × Json) → Option (Option (Forest β))
  | [] => some none
  | (name, value) :: rest =>
    if name = "children" then (Forest.ofJson? value).map some else Forest.inside? rest

/-- The forest that a list of objects describes, if it does. -/
def Forest.ofJson? : Json → Option (Forest β)
  | .array values => Forest.ofJsonList? values
  | _ => none

/-- The forest that objects describe, if each of them describes a tree. -/
def Forest.ofJsonList? : List Json → Option (Forest β)
  | [] => some []
  | value :: rest => (Tree.ofJson? value).bind fun tree =>
    (Forest.ofJsonList? rest).map fun later => tree :: later

end

end

/-- The text in a field, if there is such a field. -/
def Json.text? (name : String) (fields : List (String × Json)) : Option String :=
  match fields.lookup name with
  | some (.string text) => some text
  | _ => none

/-- Whether a field is there. -/
def Json.isSet (name : String) (fields : List (String × Json)) : Bool :=
  (fields.lookup name).isSome

/-- The token that fields describe, as far as they tell. -/
def Token.ofFields? (fields : List (String × Json)) : Option Token := do
  let value ← Json.text? "value" fields
  let state ← (Json.text? "state" fields).bind LexState.ofName?
  let kind ← (Json.text? "kind" fields).bind Kind.ofName?
  return ⟨value, state, kind, Json.isSet "error" fields, .null⟩

/-- The gist that fields describe. -/
def Gist.ofFields? (fields : List (String × Json)) : Option Gist := do
  let value ← Json.text? "value" fields
  let kind ← (Json.text? "kind" fields).bind Kind.ofName?
  return ⟨value, kind, Json.isSet "error" fields⟩

/-- The forest that a text describes, where its items are read from fields. -/
def Forest.read? {β : Type} (item? : List (String × Json) → Option β) (text : String) :
    Option (Forest β) :=
  (Json.read? text).bind (Forest.ofJson? item?)

end XQueryLexer
