namespace TypedLambda

/-!
# Symbol sets

Types and terms are written with logical symbols or with plain characters
only. The two printed forms differ in the symbols alone.
-/

/-- Which symbols printed types and terms use. -/
inductive SymbolSet where
  /-- Logical symbols such as λ, ∧ and ×. -/
  | logical
  /-- Characters below 128 such as L, & and *. -/
  | plain
  deriving Repr, DecidableEq

namespace SymbolSet

/-- Choose between the logical and the plain spelling of one symbol. -/
def choose (logical plain : String) : SymbolSet → List Char
  | .logical => logical.toList
  | .plain => plain.toList

end SymbolSet

end TypedLambda
