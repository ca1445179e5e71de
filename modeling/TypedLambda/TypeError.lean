import TypedLambda.Ty.Order
import TypedLambda.Ty.Printer

namespace TypedLambda

/-!
# Type errors

Why two types cannot be made equal, or why a term has no type. Terms appear
in these errors as their printed text.
-/

/-- A reason why a term has no type. -/
inductive TypeError where
  /-- Two types that have to agree conflict. -/
  | mismatch (expected found : Ty)
  /-- A type variable would have to contain itself. -/
  | infinite (letter : Char) (ty : Ty)
  /-- What is applied has a type that is no function type. -/
  | notFunction (term : String) (ty : Ty)
  /-- The sides of a set relation have a type that is no type of sets. -/
  | notSet (term : String) (ty : Ty)
  deriving Repr, DecidableEq

namespace TypeError

/-- Whether two types could not be aligned. -/
def isMismatch : TypeError → Bool
  | .mismatch _ _ => true
  | .infinite _ _ => true
  | .notFunction _ _ => false
  | .notSet _ _ => false

/-- The message shown to the user. -/
def message : TypeError → String
  | .mismatch expected found =>
      s!"Type mismatch: expected {expected}, found {found}"
  | .infinite letter ty =>
      s!"Cannot construct infinite type: '{letter} = {ty}"
  | .notFunction term ty =>
      s!"Cannot evaluate the type of {term}: type {ty} is not a function type"
  | .notSet term ty =>
      s!"Cannot evaluate the type of {term}: type {ty} is not a set type"

end TypeError

end TypedLambda
