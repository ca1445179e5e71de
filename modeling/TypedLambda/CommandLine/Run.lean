import TypedLambda.CommandLine.Arguments
import TypedLambda.CommandLine.Journal
import TypedLambda.Convention.Reader
import TypedLambda.Term.Reader

namespace TypedLambda.CommandLine

/-!
# Running a command line

A task prints its result line by line and reports what goes wrong. A report on
a text that cannot be read shows the text and points at the mistake.
-/

/-- What a command line leads to. -/
structure Outcome where
  /-- The exit code: 0 for success, 1 for a failure, 2 for a refusal. -/
  code : Nat
  /-- The lines printed. -/
  output : List String
  /-- The lines reported. -/
  report : List String
  deriving Repr, DecidableEq

/-- What goes wrong while a task is done. -/
inductive Failure where
  /-- The conventions cannot be read. -/
  | conventions (mistake : ConventionError)
  /-- The text that the task is about cannot be read. -/
  | unreadable (text : String) (mistake : SyntaxError)
  /-- The term has no type. -/
  | typing (reason : TypeError)
  /-- The term cannot be reduced to the end. -/
  | evaluation (reason : EvaluationError)
  deriving Repr, DecidableEq

namespace Failure

/-- An error with the cause behind it. -/
def withCause (message cause : String) : List String :=
  ["Error: " ++ message, "", "Caused by:", "    " ++ cause]

/-- What is reported about a failure; a part that holds line ends makes several lines. -/
def parts : Failure → List String
  | .conventions mistake => withCause "invalid typing conventions" mistake.message
  | .unreadable text mistake =>
      [text, String.ofList (List.replicate mistake.position ' ' ++ ['^']),
        "Error: " ++ mistake.message]
  | .typing reason => ["Error: " ++ reason.message]
  | .evaluation (.illTyped reason) =>
      withCause (EvaluationError.illTyped reason).message reason.message
  | .evaluation reason => ["Error: " ++ reason.message]

/-- The lines that report a failure. -/
def report (failure : Failure) : List String :=
  failure.parts.flatMap fun part => (part.toList.splitOnP (· == '\n')).map String.ofList

end Failure

namespace Outcome

/-- A task done. -/
def success (output report : List String) : Outcome :=
  ⟨0, output, report⟩

/-- A task that fails after some lines have been printed and reported. -/
def failure (output report : List String) (reason : Failure) : Outcome :=
  ⟨1, output, report ++ reason.report⟩

end Outcome

namespace Invocation

/-- The symbols to print with. -/
def symbols (invocation : Invocation) : SymbolSet :=
  if .asciiOutput ∈ invocation.flags then .plain else .logical

/-- How the text is to be understood. -/
def readingOptions (invocation : Invocation) : Except Failure ReadingOptions := do
  let conventions ←
    match invocation.conventions with
    | none => pure .standard
    | some text => (Conventions.read text).mapError .conventions
  let style :=
    if .multiLetter ∈ invocation.flags then Token.NameStyle.multiLetter else .singleLetter
  return ⟨.unicodeOnly ∉ invocation.flags, style, conventions⟩

/-- The term that the text denotes. -/
def readTerm (invocation : Invocation) : Except Failure Term := do
  let options ← invocation.readingOptions
  (Term.read options invocation.text).mapError (.unreadable invocation.text)

/-- The line about one conversion step. -/
def stepLine (symbols : SymbolSet) (step : Step) : String :=
  match step.kind with
  | .alpha => "α  " ++ step.result.text symbols
  | .beta => "β  " ++ step.result.text symbols

/-- Read a type and print it. -/
def runParseType (invocation : Invocation) : Outcome :=
  match Ty.read invocation.text with
  | .ok ty => .success [ty.text invocation.symbols] []
  | .error mistake => .failure [] [] (.unreadable invocation.text mistake)

/-- Print a term with its type. -/
def runTyping (invocation : Invocation) : Outcome :=
  match invocation.readTerm with
  | .error reason => .failure [] [] reason
  | .ok term =>
      match term.typeOf with
      | .error reason => .failure [] [] (.typing reason)
      | .ok ty =>
          .success
            [term.text invocation.symbols ++ " : " ++ ty.text invocation.symbols] []

/-- Print every conversion step of a term. -/
def runReduction (invocation : Invocation) : Outcome :=
  match invocation.readTerm with
  | .error reason => .failure [] [] reason
  | .ok term =>
      let symbols := invocation.symbols
      let first := "   " ++ term.text symbols
      let entries :=
        if invocation.verbosity = 0 then [] else journal term invocation.maxSteps
      let shown :=
        (entries.filter fun entry => entry.detail.isShown invocation.verbosity).map Entry.text
      match term.derivation invocation.maxSteps with
      | .error reason => .failure [first] shown (.evaluation reason)
      | .ok steps => .success (first :: steps.map (stepLine symbols)) shown

/-- Do the task. -/
def run (invocation : Invocation) : Outcome :=
  match invocation.task with
  | .parseType => invocation.runParseType
  | .typing => invocation.runTyping
  | .reduction => invocation.runReduction

end Invocation

/-- The name of the program and its version. -/
def version : String := "lambdacalc 0.1.0"

/-- How the program is used. -/
def usage : List String :=
  ["Usage: lambdacalc [-v] parse-type [--ascii-output] TYPE",
    "       lambdacalc [-v] type [--ascii-output] [--unicode-only] [--multi-letter]",
    "         [--conventions TEXT] TERM",
    "       lambdacalc [-v] reduce [--ascii-output] [--unicode-only] [--multi-letter]",
    "         [--conventions TEXT] [--max-steps NUMBER] TERM"]

namespace ValueOption

/-- The option as it is given. -/
def text : ValueOption → String
  | .conventions => "--conventions"
  | .maxSteps => "--max-steps"

end ValueOption

namespace Misuse

/-- The message shown to the user. -/
def message : Misuse → String
  | .missingTask => "no task is given"
  | .unknownTask argument => s!"unknown task '{argument}'"
  | .unexpectedArgument argument => s!"unexpected argument '{argument}'"
  | .unexpectedValue argument => s!"no value is allowed in '{argument}'"
  | .missingValue option => s!"a value is required for '{option.text}'"
  | .invalidNumber value => s!"invalid number '{value}'"
  | .repeated argument => s!"'{argument}' is given more than once"
  | .missingText => "no text is given"

end Misuse

/-- What a command line, without the name of the program, leads to. -/
def run (arguments : List String) : Outcome :=
  match Invocation.readAll 0 arguments with
  | .ok invocation => invocation.run
  | .error .showVersion => .success [version] []
  | .error .showHelp => .success usage []
  | .error (.refuse misuse) => ⟨2, [], ("error: " ++ misuse.message) :: usage⟩

end TypedLambda.CommandLine
