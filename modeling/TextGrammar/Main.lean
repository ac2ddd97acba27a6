import TextGrammar.CommandLine

/-!
The program. It reads files and lines, and prints what `CommandLine` makes of
them.
-/

namespace TextGrammar.CommandLine

/-- The content of a file, if it can be read. -/
def readContent (path : String) : IO (Option String) := do
  try
    return some (← IO.FS.readFile path)
  catch _ =>
    return none

/-- Tells a failure on the error stream. -/
def tell (failure : Failure) : IO UInt32 := do
  IO.eprintln failure.message
  return 1

/-- Prompts for lines and answers them until there are no more. -/
partial def answerLines (grammar : Grammar) : IO UInt32 := do
  let output ← IO.getStdout
  output.putStr ">>> "
  output.flush
  let line ← (← IO.getStdin).getLine
  if line.isEmpty then
    return 0
  match parse grammar line with
  | .ok printed => output.putStr printed
  | .error failure => output.putStr (failure.message ++ "\n")
  answerLines grammar

/-- Parses an input file, or the lines that are typed, with a grammar file. -/
def start (arguments : List String) : IO UInt32 := do
  match arguments with
  | [] => tell .noGrammar
  | path :: rest =>
      match loadGrammar (← readContent path), rest with
      | .error failure, _ => tell failure
      | .ok grammar, [] => answerLines grammar
      | .ok grammar, input :: _ =>
          match parseFile grammar (← readContent input) with
          | .error failure => tell failure
          | .ok printed =>
              IO.print printed
              return 0

end TextGrammar.CommandLine

/-- Runs the program on its arguments. -/
def main (arguments : List String) : IO UInt32 :=
  TextGrammar.CommandLine.start arguments
