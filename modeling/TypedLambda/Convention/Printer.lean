import TypedLambda.Convention.Basic
import TypedLambda.Ty.Printer

namespace TypedLambda

/-!
# Printed conventions

A convention is written as its interval of characters, a colon, the kind and
the type: `x-z: var e`. Conventions are separated by semicolons.
-/

namespace IdentifierKind

/-- The word for a kind. -/
def word : IdentifierKind → List Char
  | .variable => ['v', 'a', 'r']
  | .constant => ['c', 'o', 'n', 's', 't']

end IdentifierKind

namespace Convention

/-- The interval of characters; a single one is written alone. -/
def intervalChars (convention : Convention) : List Char :=
  if convention.first = convention.last then
    [convention.first]
  else
    [convention.first, '-', convention.last]

/-- The characters of a printed convention. -/
def chars (convention : Convention) : List Char :=
  convention.intervalChars ++ [':', ' '] ++ convention.kind.word ++
    ' ' :: convention.ty.chars .logical

end Convention

namespace Conventions

/-- The characters of the printed conventions. -/
def chars (conventions : Conventions) : List Char :=
  [';', ' '].intercalate (conventions.entries.map Convention.chars)

/-- The printed form of the conventions. -/
def text (conventions : Conventions) : String :=
  String.ofList conventions.chars

instance : ToString Conventions := ⟨text⟩

end Conventions

end TypedLambda
