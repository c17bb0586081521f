import XQueryLexer.CommandLine.Command

/-! The program that answers a command line. -/

namespace XQueryLexer.CommandLine

/-- The text of a file, or why it cannot be had. -/
def readText (path : String) : IO (Except FileError String) := do
  try
    let bytes ← IO.FS.readBinFile path
    return textOfBytes bytes
  catch
    | .noFileOrDirectory _ _ _ => return .error .missing
    | .inappropriateType _ 21 _ => return .error .directory
    | problem => return .error (.other (toString problem))

/-- Prints an outcome and returns its exit status. -/
def Outcome.print (outcome : Outcome) : IO UInt32 := do
  for record in outcome.log do
    IO.eprintln ("[" ++ record.level.name ++ "] " ++ record.message)
  IO.print outcome.output
  IO.eprint outcome.errors
  return outcome.status.toUInt32

end XQueryLexer.CommandLine

open XQueryLexer.CommandLine in
/-- Answers the arguments of the command line. -/
def main (arguments : List String) : IO UInt32 := do
  match Request.ofArguments arguments with
  | .error .version => versionOutcome.print
  | .error (.usage problem) =>
    IO.eprintln ("error: " ++ problem.message)
    return 2
  | .ok request =>
    -- Only a file has to be read before the request can be answered.
    let text ← match request.input with
      | .file path => readText path
      | _ => pure (.error .missing)
    (request.run fun _ => text).print
