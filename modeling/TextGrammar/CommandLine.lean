import TextGrammar.Encoding.Definition
import TextGrammar.Encoding.Tree
import TextGrammar.Grammar.Lazy
import TextGrammar.Json.Printer

/-!
The command line: a grammar file, and an input file or lines to parse.

Here is all of the program but reading and printing. A run either fails, which
is told on the error stream, or prints trees; a line that doesn't parse is
answered by a report and does not end the run.
-/

namespace TextGrammar.CommandLine

/-- Why a run of the program fails. -/
inductive Failure where
  /-- No grammar file was named. -/
  | noGrammar
  | unreadableGrammar
  /-- The grammar file holds no definition. -/
  | notADefinition
  | unreadableInput
  /-- The grammar or the input has an error. -/
  | rejected (error : Error)
  /-- The input was to be read from an offset that is no place in it. -/
  | misplaced
deriving DecidableEq, Repr

/-- An error as it is reported: its message, the places it points at, and advice. -/
def report (error : Error) : String :=
  let labels := error.labels.map fun label =>
    "\n  at " ++ toString label.offset ++ ": " ++ label.content
  let help := error.help?.map fun help => "\n  help: " ++ help
  error.message ++ String.join (labels ++ help.toList)

def Failure.message : Failure → String
  | .noGrammar => "usage: textgrammar <grammar.json> [input]"
  | .unreadableGrammar => "can't read the grammar file"
  | .notADefinition => "the grammar file is not a grammar definition"
  | .unreadableInput => "can't read the input file"
  | .rejected error => report error
  | .misplaced => "the input was read from an offset that is no place in it"

/-- The grammar in a file with this content; a file that can't be read has none. -/
def loadGrammar (content : Option String) : Except Failure Grammar :=
  match content with
  | none => .error .unreadableGrammar
  | some text =>
      match Definition.ofText? text with
      | none => .error .notADefinition
      | some definition => definition.compile.mapError .rejected

def parse (grammar : Grammar) (input : String) : Except Failure String :=
  match grammar.parse input.toList with
  | .tree root => .ok (root.toJson.pretty ++ "\n")
  | .error error => .error (.rejected error)
  | .misplaced => .error .misplaced

/-- The tree of an input file with this content, as it is printed. -/
def parseFile (grammar : Grammar) (content : Option String) : Except Failure String :=
  match content with
  | none => .error .unreadableInput
  | some input => parse grammar input

/-- The line in front of the rest of a text, with the line feed that ends it. -/
def splitLine : Text → Text × Text
  | [] => ([], [])
  | '\n' :: cs => (['\n'], cs)
  | c :: cs => (c :: (splitLine cs).1, (splitLine cs).2)

theorem length_splitLine_lt {text : Text} (more : text ≠ []) :
    (splitLine text).2.length < text.length := by
  fun_induction splitLine text with
  | case1 => contradiction
  | case2 cs => simp
  | case3 c cs _ ih =>
      cases cs with
      | nil => simp [splitLine]
      | cons d ds =>
          have := ih (by simp)
          simp only [List.length_cons] at this ⊢
          omega

/-- The lines of a text, each with its line feed; the last may lack it. -/
def lines (text : Text) : List Text :=
  if more : text = [] then []
  else
    have := length_splitLine_lt more
    (splitLine text).1 :: lines (splitLine text).2
termination_by text.length

/-- What a run has printed when it has come to its end. -/
inductive Printed where
  | text (output : String)
  /-- The answer to every line that was prompted for: what was printed for its
  tree, or the failure that was reported. -/
  | answers (answers : List (Except Failure String))

/-- A run of the program. `grammarFile` and `inputFile` are the files that are
named, with their contents if they can be read; without an input file every line
of `typed` is an input. -/
def run (grammarFile inputFile : Option (Option String)) (typed : String) :
    Except Failure Printed :=
  match grammarFile with
  | none => .error .noGrammar
  | some content => do
      let grammar ← loadGrammar content
      match inputFile with
      | some input => return .text (← parseFile grammar input)
      | none =>
          return .answers ((lines typed.toList).map fun line =>
            parse grammar (String.ofList line))

end TextGrammar.CommandLine
