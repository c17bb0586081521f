import XQueryLexer.Log
import XQueryLexer.Naming
import XQueryLexer.Scan

/-! The assembly of lexemes into a nested and labelled forest of tokens, and the analysis of a
source, which is what the lexer is for. -/

namespace XQueryLexer

/-- The trees of one scope so far, split at the latest real one, which alone can be relabelled. -/
structure Scope where
  /-- The trees before the latest real one. -/
  settled : Array (Tree Token)
  /-- The latest real tree, if there is one. -/
  latest : Option (Tree Token)
  /-- The whitespace and the comments after the latest real tree. -/
  layout : Array (Tree Token)

namespace Scope

/-- A scope with nothing in it. -/
def empty : Scope :=
  ⟨#[], none, #[]⟩

/-- The trees of the scope in document order, as an array that can be extended. -/
def contents (scope : Scope) : Array (Tree Token) :=
  match scope.latest with
  | none => scope.settled ++ scope.layout
  | some tree => scope.settled.push tree ++ scope.layout

/-- The trees of the scope in document order. -/
def trees (scope : Scope) : Forest Token :=
  scope.contents.toList

/-- The latest real token of the scope. -/
def latestToken? (scope : Scope) : Option Token :=
  scope.latest.map Tree.item

/-- Gives the latest real token another role. -/
def relabel (scope : Scope) (kind : Kind) : Scope :=
  { scope with latest := scope.latest.map (Tree.mapHead ({ · with kind })) }

/-- Places a tree at the end of the scope. -/
def add (scope : Scope) (tree : Tree Token) : Scope :=
  if tree.item.isReal then ⟨scope.contents, some tree, #[]⟩
  else { scope with layout := scope.layout.push tree }

end Scope

/-- An open bracket with the scope that it stands in. -/
structure Frame where
  /-- The bracket that is open. -/
  bracket : Bracket
  /-- The token that opened it. -/
  opener : Token
  /-- The scope around the bracket, without the opening token. -/
  outer : Scope

namespace Frame

/-- The scope around a bracket once everything inside the bracket is known. -/
def fold (frame : Frame) (inside : Scope) : Scope :=
  frame.outer.add (.group frame.opener inside.trees)

end Frame

/-- What has been assembled of a source so far. -/
structure Assembly where
  /-- Whether diagnostics are collected. -/
  collecting : Bool
  /-- The open brackets, innermost first. -/
  frames : List Frame
  /-- The innermost open scope. -/
  scope : Scope
  /-- The diagnostics collected so far. -/
  diagnostics : Array Diagnostic
  /-- The records of the log so far. -/
  log : Array Record

namespace Assembly

/-- The assembly before the first lexeme. -/
def initial (collecting : Bool) : Assembly :=
  ⟨collecting, [], .empty, #[], #[]⟩

/-- Puts a record into the log. -/
def note (assembly : Assembly) (record : Record) : Assembly :=
  { assembly with log := assembly.log.push record }

/-- Logs a diagnostic, and collects it if diagnostics are collected. -/
def report (assembly : Assembly) (diagnostic : Diagnostic) : Assembly :=
  let noted := assembly.note (.diagnosed diagnostic)
  if assembly.collecting then { noted with diagnostics := noted.diagnostics.push diagnostic }
  else noted

/-- Gives the latest real token of the innermost scope another role, if there is a new one. -/
def relabel (assembly : Assembly) (kind : Option Kind) : Assembly :=
  match kind, assembly.scope.latestToken? with
  | some kind, some token =>
    { assembly with scope := assembly.scope.relabel kind }.note
      (.relabelled token.value token.kind kind)
  | _, _ => assembly

/-- Logs a token and lets it settle the role of the latest real token before it. -/
def settle (assembly : Assembly) (token : Token) : Assembly :=
  let noted := assembly.note
    (.token token.value token.state token.kind assembly.frames.length)
  noted.relabel (noted.scope.latestToken?.bind (·.settledBy? token))

/-- The roles that a token gives and takes in the innermost scope. -/
def labels (assembly : Assembly) (token : Token) : Labels :=
  token.labelsAfter (assembly.scope.latestToken?.getD .scopeStart)

/-- Announces a token, and returns it with its own role. -/
def announce (assembly : Assembly) (token : Token) : Assembly × Token :=
  let settled := assembly.settle token
  let labels := settled.labels token
  (settled.relabel labels.previous, { token with kind := labels.current.getD token.kind })

/-- Places a token that nothing is nested inside of. -/
def place (assembly : Assembly) (token : Token) : Assembly :=
  let (announced, labelled) := assembly.announce token
  { announced with scope := announced.scope.add (.leaf labelled) }

/-- Places a token that opens a bracket, and enters the scope inside it. -/
def openBracket (assembly : Assembly) (bracket : Bracket) (token : Token) : Assembly :=
  let (announced, labelled) := assembly.announce token
  { announced with
    frames := ⟨bracket, labelled, announced.scope⟩ :: announced.frames
    scope := .empty }

/-- Places a token that closes a bracket, leaving the innermost scope if that is the bracket. -/
def closeBracket (assembly : Assembly) (bracket : Bracket) (token : Token) : Assembly :=
  match assembly.frames with
  | [] =>
    (assembly.report ⟨.unmatchedCloser token.value, token.span.start⟩).place
      { token with error := true }
  | frame :: outer =>
    if frame.bracket = bracket then
      { assembly with frames := outer, scope := frame.fold assembly.scope }.place token
    else
      let fault := Fault.mismatchedCloser frame.bracket.closer bracket.closer
      (assembly.report ⟨fault, token.span.start⟩).place { token with error := true }

/-- Takes in one event of the scanner. -/
def absorb (assembly : Assembly) : Event → Assembly
  | .turn c ahead old new => assembly.note (.turn c ahead old new)
  | .unterminated diagnostic => assembly.report diagnostic
  | .lexeme found =>
    let token := Token.ofState found.value found.state (.ofOffsets found.start found.stop)
    match found.state with
    | .opening bracket => assembly.openBracket bracket token
    | .closing bracket => assembly.closeBracket bracket token
    | _ => assembly.place token

/-- Reports every bracket that is still open, innermost first. -/
def reportUnclosed (assembly : Assembly) : Assembly :=
  assembly.frames.foldl
    (fun reported frame =>
      reported.report ⟨.unclosedBracket frame.opener.value, frame.opener.span.start⟩)
    assembly

/-- The forest of everything assembled, where brackets still open end with the source. -/
def forest (assembly : Assembly) : Forest Token :=
  (assembly.frames.foldl (fun inside frame => frame.fold inside) assembly.scope).trees

end Assembly

/-- What a caller can choose about an analysis. -/
structure Options where
  /-- Whether diagnostics are collected. -/
  collectDiagnostics : Bool := true
  deriving DecidableEq, Repr

/-- What there is to know about a source. -/
structure Analysis where
  /-- The tokens of the source, nested by its brackets. -/
  forest : Forest Token
  /-- What is wrong with the source, in the order in which it was found. -/
  diagnostics : List Diagnostic
  /-- What happened while the source was read. -/
  log : List Record

/-- The assembly of a whole source. -/
def Assembly.ofSource (options : Options) (source : String) : Assembly :=
  let start := (Assembly.initial options.collectDiagnostics).note (.analysing source)
  ((Event.ofSource source).foldl Assembly.absorb start).reportUnclosed

/-- Reads a source. -/
def analyse (source : String) (options : Options := {}) : Analysis :=
  let assembly := Assembly.ofSource options source
  ⟨assembly.forest, assembly.diagnostics.toList, assembly.log.toList⟩

end XQueryLexer
