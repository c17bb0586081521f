/-! The arguments of the command line and the request that they make. -/

namespace XQueryLexer.CommandLine

/-- How a forest of tokens is printed. -/
inductive Format where
  | tree
  | json
  | min
  deriving DecidableEq, Repr

/-- The format with a given name. -/
def Format.ofName? (text : String) : Option Format :=
  if text = "tree" then some .tree
  else if text = "json" then some .json
  else if text = "min" then some .min
  else none

/-- The options that take a value. -/
inductive Setting where
  | file
  | sample
  | format
  deriving DecidableEq, Repr

/-- The options that take no value. -/
inductive Flag where
  | verbose
  | traceStates
  | version
  deriving DecidableEq, Repr

/-- Anything that can be switched on or set by an option. -/
inductive Switch where
  | setting (which : Setting)
  | flag (which : Flag)
  deriving DecidableEq, Repr

/-- The switch with a long name. -/
def Switch.ofName? (text : String) : Option Switch :=
  if text = "file" then some (.setting .file)
  else if text = "sample" then some (.setting .sample)
  else if text = "format" then some (.setting .format)
  else if text = "verbose" then some (.flag .verbose)
  else if text = "trace-states" then some (.flag .traceStates)
  else if text = "version" then some (.flag .version)
  else none

/-- The switch with a letter for its name. -/
def Switch.ofLetter? (c : Char) : Option Switch :=
  if c = 'f' then some (.setting .file)
  else if c = 's' then some (.setting .sample)
  else if c = 'v' then some (.flag .verbose)
  else if c = 'V' then some (.flag .version)
  else none

/-- The long name of an option that takes a value. -/
def Setting.name : Setting → String
  | file => "--file"
  | sample => "--sample"
  | format => "--format"

/-- The long name of an option that takes no value. -/
def Flag.name : Flag → String
  | verbose => "--verbose"
  | traceStates => "--trace-states"
  | version => "--version"

/-- The long name of an option. -/
def Switch.name : Switch → String
  | setting which => which.name
  | flag which => which.name

/-- What can be wrong with the arguments. -/
inductive UsageError where
  | unknown (argument : String)
  | surplus (argument : String)
  | missingValue (setting : Setting)
  | needlessValue (argument : String)
  | badValue (setting : Setting) (value : String)
  | repeated (switch : Switch)
  | conflict
  deriving DecidableEq, Repr

/-- The sentence that describes what is wrong with the arguments. -/
def UsageError.message : UsageError → String
  | unknown argument => "unexpected argument " ++ argument
  | surplus argument => "surplus argument " ++ argument
  | missingValue setting => "no value given for " ++ setting.name
  | needlessValue argument => "unexpected value in " ++ argument
  | badValue setting value => "invalid value " ++ value ++ " for " ++ setting.name
  | repeated switch => "repeated option " ++ switch.name
  | conflict => "more than one expression given"

/-- Why the arguments are not read to their end, or not obeyed. -/
inductive Interruption where
  | version
  | usage (error : UsageError)
  deriving DecidableEq, Repr

/-- What the arguments read so far ask for. -/
structure Draft where
  /-- The expression itself. -/
  expression : Option String
  /-- The file that holds the expression. -/
  file : Option String
  /-- The number of a sample expression. -/
  sample : Option Nat
  /-- The format of the output. -/
  format : Option Format
  /-- Whether tokens are logged. -/
  verbose : Bool
  /-- Whether the states of the scanner are logged. -/
  traceStates : Bool
  deriving DecidableEq, Repr

/-- The number that decimal digits stand for, after a number read so far. -/
def decimalFrom (number : Nat) : List Char → Option Nat
  | [] => some number
  | c :: rest =>
    if c.isDigit then decimalFrom (10 * number + (c.toNat - '0'.toNat)) rest else none

/-- The number that a text stands for, if it fits into 64 bits; a plus sign may precede it. -/
def wordOfText? (text : String) : Option Nat :=
  let digits := match text.toList with
    | '+' :: rest => rest
    | all => all
  if digits.isEmpty then none
  else (decimalFrom 0 digits).filter (· < UInt64.size)

/-- Whether an argument is read as options, so that it is no value. -/
def isOptionLike (argument : String) : Bool :=
  match argument.toList with
  | '-' :: _ :: _ => true
  | _ => false

namespace Draft

/-- The draft before the first argument. -/
def empty : Draft :=
  ⟨none, none, none, none, false, false⟩

/-- Sets an option to a value, which it can be once. -/
def set (draft : Draft) (setting : Setting) (value : String) : Except Interruption Draft :=
  let repeated := .error (.usage (.repeated (.setting setting)))
  let refused := .error (.usage (.badValue setting value))
  match setting with
  | .file =>
    if draft.file.isSome then repeated
    else if value.isEmpty then refused
    else .ok { draft with file := some value }
  | .sample =>
    if draft.sample.isSome then repeated
    else match wordOfText? value with
      | none => refused
      | some number => .ok { draft with sample := some number }
  | .format =>
    if draft.format.isSome then repeated
    else match Format.ofName? value with
      | none => refused
      | some format => .ok { draft with format := some format }

/-- Switches a flag on, which can be done once; asking for the version ends the reading. -/
def raise (draft : Draft) (flag : Flag) : Except Interruption Draft :=
  match flag with
  | .version => .error .version
  | .verbose =>
    if draft.verbose then .error (.usage (.repeated (.flag flag)))
    else .ok { draft with verbose := true }
  | .traceStates =>
    if draft.traceStates then .error (.usage (.repeated (.flag flag)))
    else .ok { draft with traceStates := true }

/-- Takes an argument as the expression, of which there is one. -/
def express (draft : Draft) (argument : String) : Except Interruption Draft :=
  if draft.expression.isSome then .error (.usage (.surplus argument))
  else .ok { draft with expression := some argument }

/-- Reads the letters of an argument, and returns the option that still awaits its value. -/
def readLetters (draft : Draft) (argument : String) :
    List Char → Except Interruption (Draft × Option Setting)
  | [] => .ok (draft, none)
  | c :: rest =>
    match Switch.ofLetter? c with
    | none => .error (.usage (.unknown argument))
    | some (.flag flag) => (draft.raise flag).bind fun raised => raised.readLetters argument rest
    | some (.setting setting) =>
      match rest with
      | [] => .ok (draft, some setting)
      | '=' :: value => (draft.set setting (.ofList value)).map (·, none)
      | value => (draft.set setting (.ofList value)).map (·, none)

/-- Reads an option by its long name, with the value attached to it if there is one. -/
def readName (draft : Draft) (argument name : String) (value : Option String) :
    Except Interruption (Draft × Option Setting) :=
  match Switch.ofName? name, value with
  | none, _ => .error (.usage (.unknown argument))
  | some (.flag flag), none => (draft.raise flag).map (·, none)
  | some (.flag _), some _ => .error (.usage (.needlessValue argument))
  | some (.setting setting), none => .ok (draft, some setting)
  | some (.setting setting), some value => (draft.set setting value).map (·, none)

/-- Reads one argument, and returns the option that still awaits its value. -/
def readArgument (draft : Draft) (argument : String) :
    Except Interruption (Draft × Option Setting) :=
  match argument.toList with
  | '-' :: '-' :: long =>
    let name := long.takeWhile (· ≠ '=')
    let value := match long.dropWhile (· ≠ '=') with
      | [] => none
      | _ :: rest => some (String.ofList rest)
    draft.readName argument (.ofList name) value
  | '-' :: c :: rest => draft.readLetters argument (c :: rest)
  | _ => (draft.express argument).map (·, none)

/-- Reads the arguments after a double dash, none of which is an option. -/
def readPlain (draft : Draft) : List String → Except Interruption Draft
  | [] => .ok draft
  | argument :: rest => (draft.express argument).bind fun next => next.readPlain rest

/-- Reads arguments in order, where an option may await its value. -/
def read (draft : Draft) (awaiting : Option Setting) : List String → Except Interruption Draft
  | [] =>
    match awaiting with
    | none => .ok draft
    | some setting => .error (.usage (.missingValue setting))
  | argument :: rest =>
    match awaiting with
    | some setting =>
      if isOptionLike argument then .error (.usage (.missingValue setting))
      else (draft.set setting argument).bind fun next => next.read none rest
    | none =>
      if argument = "--" then draft.readPlain rest
      else (draft.readArgument argument).bind fun (next, awaiting) => next.read awaiting rest

end Draft

/-- Where the expression comes from. -/
inductive Input where
  | absent
  | expression (text : String)
  | file (path : String)
  | sample (number : Nat)
  deriving DecidableEq, Repr

/-- What the arguments ask for. -/
structure Request where
  /-- Where the expression comes from. -/
  input : Input
  /-- How the tokens are printed. -/
  format : Format
  /-- Whether tokens are logged. -/
  verbose : Bool
  /-- Whether the states of the scanner are logged. -/
  traceStates : Bool
  deriving DecidableEq, Repr

/-- The input that a draft asks for, which is at most one. -/
def Draft.input (draft : Draft) : Except Interruption Input :=
  match draft.expression, draft.file, draft.sample with
  | none, none, none => .ok .absent
  | some text, none, none => .ok (.expression text)
  | none, some path, none => .ok (.file path)
  | none, none, some number => .ok (.sample number)
  | _, _, _ => .error (.usage .conflict)

/-- The request that arguments make. -/
def Request.ofArguments (arguments : List String) : Except Interruption Request :=
  (Draft.empty.read none arguments).bind fun draft =>
    draft.input.map fun input =>
      ⟨input, draft.format.getD .tree, draft.verbose, draft.traceStates⟩

end XQueryLexer.CommandLine
