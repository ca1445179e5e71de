import TypedLambda.SymbolSet
import TypedLambda.Ty.Basic

namespace TypedLambda.Ty

/-!
# Printed types

A function type is written `<d,r>`, a product by its factors with × or *
between them, and a variable by a quote and its letter. Only a factor that is
itself a product needs parentheses.
-/

/-- The sign between two factors of a product. -/
def times : SymbolSet → List Char :=
  SymbolSet.choose "×" "*"

/-- The text of a factor, given its text as a type. -/
def enclose : Ty → List Char → List Char
  | .prod _, text => '(' :: text ++ [')']
  | _, text => text

mutual

/-- The characters of a printed type. -/
def chars (symbols : SymbolSet) : Ty → List Char
  | .atom letter => [letter]
  | .var letter => ['\x27', letter]
  | .fn domain range =>
      '<' :: domain.chars symbols ++ ',' :: range.chars symbols ++ ['>']
  | .prod [] => []
  | .prod (factor :: rest) =>
      enclose factor (factor.chars symbols) ++ furtherFactors symbols rest

/-- The characters of the factors after the first one. -/
def furtherFactors (symbols : SymbolSet) : List Ty → List Char
  | [] => []
  | factor :: rest =>
      times symbols ++ enclose factor (factor.chars symbols) ++
        furtherFactors symbols rest

end

/-- The printed form of a type. -/
def text (symbols : SymbolSet) (ty : Ty) : String :=
  String.ofList (ty.chars symbols)

instance : ToString Ty := ⟨text .logical⟩

end TypedLambda.Ty
