import TypedLambda.Convention.Printer
import TypedLambda.Ty.Reader

namespace TypedLambda

/-!
# Reading conventions

Conventions are separated by semicolons or line ends. Blank entries and those
that start with `#` say nothing. An entry is an interval of letters, a colon,
the word `var` or `const`, and a type; blanks may surround each part.
-/

/-- What is wrong with an entry; the entry is quoted without outer blanks. -/
inductive ConventionError where
  /-- There is no colon. -/
  | missingColon (entry : String)
  /-- What precedes the colon is no letter and no interval of letters. -/
  | invalidInterval (entry interval : String)
  /-- The word after the colon is neither `var` nor `const`. -/
  | invalidKind (entry : String)
  /-- What follows the kind is no type. -/
  | invalidType (entry : String) (reason : SyntaxError)
  deriving Repr, DecidableEq

namespace ConventionError

/-- The message shown to the user. -/
def message : ConventionError → String
  | .missingColon entry =>
      s!"Missing ':' in convention '{entry}'"
  | .invalidInterval entry interval =>
      s!"Invalid character range '{interval}' in convention '{entry}'"
  | .invalidKind entry =>
      s!"Expected 'var' or 'const' in convention '{entry}'"
  | .invalidType entry reason =>
      s!"Invalid type in convention '{entry}': {reason.message}"

end ConventionError

namespace IdentifierKind

/-- The kind that a word stands for. -/
def ofWord? (text : List Char) : Option IdentifierKind :=
  if text = word .variable then
    some .variable
  else if text = word .constant then
    some .constant
  else
    none

end IdentifierKind

namespace Convention

/-- What precedes and what follows the first separating character. -/
def cut? (separates : Char → Bool) : List Char → Option (List Char × List Char)
  | [] => none
  | character :: rest =>
      if separates character then
        some ([], rest)
      else
        (cut? separates rest).map fun parts => (character :: parts.1, parts.2)

/-- Read a letter or an interval of letters, blanks disregarded. -/
def readInterval? (text : List Char) : Option (Char × Char) :=
  match text.filter (fun character => !Text.isBlank character) with
  | [letter] =>
      if Text.isLetter letter then some (letter, letter) else none
  | [first, '-', last] =>
      if Text.isLetter first && Text.isLetter last && first ≤ last then
        some (first, last)
      else
        none
  | _ => none

/-- Read an entry that holds a convention and has no outer blanks. -/
def read (entry : List Char) : Except ConventionError Convention :=
  let quoted := String.ofList entry
  match cut? (· == ':') entry with
  | none => .error (.missingColon quoted)
  | some (interval, rest) =>
      match readInterval? interval with
      | none => .error (.invalidInterval quoted (String.ofList (Text.trim interval)))
      | some (first, last) =>
          let statement := Text.trimStart rest
          let (word, typeText) := (cut? Text.isBlank statement).getD (statement, [])
          match IdentifierKind.ofWord? word with
          | none => .error (.invalidKind quoted)
          | some kind =>
              match Ty.read (String.ofList typeText) with
              | .ok ty => .ok ⟨first, last, kind, ty⟩
              | .error reason => .error (.invalidType quoted reason)

end Convention

namespace Conventions

/-- Whether a character ends an entry. -/
def separates (character : Char) : Bool :=
  character == ';' || character == '\n'

/-- Whether an entry without outer blanks holds a convention. -/
def isStatement : List Char → Bool
  | [] => false
  | character :: _ => character != '#'

/-- The entries of a text that hold conventions, without outer blanks. -/
def statements (text : List Char) : List (List Char) :=
  ((text.splitOnP separates).map Text.trim).filter isStatement

/-- The conventions that a text states, or its first mistake. -/
def read (text : String) : Except ConventionError Conventions := do
  let entries ← (statements text.toList).mapM Convention.read
  return ⟨entries⟩

end Conventions

end TypedLambda
