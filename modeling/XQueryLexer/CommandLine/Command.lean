import XQueryLexer.Analysis
import XQueryLexer.CommandLine.Arguments
import XQueryLexer.Output
import XQueryLexer.Report

/-! What the command line answers to a request. -/

namespace XQueryLexer.CommandLine

/-- The sample expressions, which are numbered from one. -/
def samples : List String :=
  ["pp(:(:q:)z:)rr'ss''mm'tt",
    "pp'qq''rr'ss",
    "pp\"tt\"\"tt again ",
    "my 'single' and \"double\" and (: comment :) and",
    "pre 'single' and",
    "$test[@predicate + doc(root + other = 'abc')/remainder]/element",
    "test['abc']",
    "$abc+$def",
    "let $a := Q\x7bhttp:qutoric.com\x7dslender",
    "+72.8 + $my:first-name + 7e-2 + 7-2 + 982.5",
    "5>=8",
    "let $exclude := test/elements/\"trick.com\":element/let!$over return\n" ++
      "if (empty($exclude) and 'tre'||$t eq 'treat' and \"trick.com\":another)\n" ++
      "   then ()\n" ++
      "else if ($exclude/@end)\n" ++
      "   then\n" ++
      "   $exclude/@end cast as xs:integer + 1\n" ++
      "else ()",
    "let $increment := function($x as xs:integer) as xs:integer* \x7b\n" ++
      "\tif ($x lt 10 and 'a' eq $y) then\n" ++
      "\t$x + 1, $fnb[22](24), $fna(28)\n" ++
      "\telse\n" ++
      "\t$x + 2, Q\x7bhttp://example.com\x7ddiv\n" ++
      "\x7d return books/book/@title + $test",
    "$a and 'a' and 23 and true() and function() and array[1] and $var and 5 + and and",
    "$a castable as xs:integer and $b instance of element()"]

/-- The sample expression with a number, if there is one. -/
def sample? (number : Nat) : Option String :=
  if number = 0 then none else samples[number - 1]?

/-- Why the text of a file cannot be had. -/
inductive FileError where
  | missing
  | directory
  | notText
  | other (message : String)
  deriving DecidableEq, Repr

/-- The sentence that describes why the text of a file cannot be had. -/
def FileError.message : FileError → String
  | missing => "No such file or directory (os error 2)"
  | directory => "Is a directory (os error 21)"
  | notText => "stream did not contain valid UTF-8"
  | other message => message

/-- The text of the bytes of a file. -/
def textOfBytes (bytes : ByteArray) : Except FileError String :=
  match String.fromUTF8? bytes with
  | none => .error .notText
  | some text => .ok text

/-- Why a request cannot be obeyed. -/
inductive Failure where
  | noInput
  | noSample
  | file (error : FileError)
  deriving DecidableEq, Repr

/-- The sentence that describes why a request cannot be obeyed. -/
def Failure.message : Failure → String
  | noInput => "no expression given (use an argument, --file or --sample)"
  | noSample => "sample must be between 1 and " ++ toString samples.length
  | file error => error.message

/-- An expression with the name of the place that it came from. -/
structure Expression where
  /-- The text of the expression. -/
  source : String
  /-- The place that the expression came from. -/
  origin : String
  deriving DecidableEq, Repr

/-- The expression that an input stands for, given the texts of files. -/
def Input.expression? (files : String → Except FileError String) :
    Input → Except Failure Expression
  | .absent => .error .noInput
  | .expression text => .ok ⟨text, "expression"⟩
  | .file path =>
    match files path with
    | .error error => .error (.file error)
    | .ok text => .ok ⟨text, path⟩
  | .sample number =>
    match sample? number with
    | none => .error .noSample
    | some text => .ok ⟨text, "sample " ++ toString number⟩

/-- What a run of the command line leaves behind. -/
structure Outcome where
  /-- The exit status. -/
  status : UInt8
  /-- The text on the standard output. -/
  output : String
  /-- The text on the standard error. -/
  errors : String
  /-- The records that the request wants logged. -/
  log : List Record

/-- The text of a forest in a format. -/
def Format.print (format : Format) (forest : Forest Token) : String :=
  match format with
  | .tree => Forest.listing forest
  | .json => Forest.dump forest ++ "\n"
  | .min => Forest.dumpOutline forest ++ "\n"

/-- How much of the log a request wants, which is at least what is wrong with the expression. -/
def Request.level (request : Request) : Level :=
  if request.traceStates then .trace else if request.verbose then .debug else .warn

/-- The outcome of a request, given the texts of files. -/
def Request.run (request : Request) (files : String → Except FileError String) : Outcome :=
  match request.input.expression? files with
  | .error failure => ⟨1, "", "Error: " ++ failure.message ++ "\n", []⟩
  | .ok ⟨source, origin⟩ =>
    let analysis := analyse source
    let reports := analysis.diagnostics.map (·.report source origin)
    ⟨if analysis.diagnostics.isEmpty then 0 else 2,
      request.format.print analysis.forest,
      String.join reports,
      analysis.log.filter (Record.isShown request.level)⟩

/-- The name and the version of the program. -/
def versionLine : String :=
  "xplexer 0.1.0"

/-- The outcome of a run that only asks for the version. -/
def versionOutcome : Outcome :=
  ⟨0, versionLine ++ "\n", "", []⟩

end XQueryLexer.CommandLine
