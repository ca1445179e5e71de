import TypedLambda.Sorting

namespace TypedLambda

/-!
# Semantic types

A type is a basic type such as `e` or `t`, a type variable, a function type or
a product of any number of factors. Because products hold a list, functions on
types come in pairs, one for a type and one for the factors of a product, and
proofs go by `Ty.induction`, whose case for products assumes the statement of
every factor.
-/

/-- A semantic type. -/
inductive Ty where
  /-- A basic type, named by one character. -/
  | atom (letter : Char)
  /-- A type variable, named by one character. -/
  | var (letter : Char)
  /-- The functions from a domain to a range. -/
  | fn (domain range : Ty)
  /-- The tuples with one component in each factor. -/
  | prod (factors : List Ty)
  deriving Repr

namespace Ty

/-- A statement holds of every type if each constructor preserves it. -/
@[induction_eliminator]
theorem induction
    {motive : Ty → Prop}
    (atom : ∀ letter, motive (.atom letter))
    (var : ∀ letter, motive (.var letter))
    (fn : ∀ domain range, motive domain → motive range → motive (.fn domain range))
    (prod : ∀ factors, (∀ factor ∈ factors, motive factor) → motive (.prod factors))
    (ty : Ty) :
    motive ty :=
  @Ty.rec motive (fun factors => ∀ factor ∈ factors, motive factor)
    atom var fn prod
    (fun _ absent => by simp at absent)
    (fun head tail headHolds tailHolds factor member => by
      rcases List.mem_cons.mp member with rfl | member
      · exact headHolds
      · exact tailHolds factor member)
    ty

/-- The type `e` of entities. -/
def entity : Ty := .atom 'e'

/-- The type `t` of truth values. -/
def truth : Ty := .atom 't'

/-- The type of the sets whose elements have a given type. -/
def predicate (element : Ty) : Ty := .fn element truth

/-- The arguments that a function type accepts. -/
def domain? : Ty → Option Ty
  | .fn domain _ => some domain
  | _ => none

/-- The values that a function type yields. -/
def range? : Ty → Option Ty
  | .fn _ range => some range
  | _ => none

mutual

/-- The letter of every occurrence of a type variable, from left to right. -/
def letters : Ty → List Char
  | .atom _ => []
  | .var letter => [letter]
  | .fn domain range => domain.letters ++ range.letters
  | .prod factors => lettersOfAll factors

/-- The variable occurrences of a list of types, one type after the other. -/
def lettersOfAll : List Ty → List Char
  | [] => []
  | ty :: rest => ty.letters ++ lettersOfAll rest

end

/-- The type variables in ascending order, each once. -/
def letterListing (ty : Ty) : List Char :=
  Sorting.listing Sorting.charPrecedes ty.letters

/-- Whether any type variable occurs. -/
def isPolymorphic (ty : Ty) : Bool :=
  !ty.letters.isEmpty

mutual

/-- The number of constructors of a type. -/
def size : Ty → Nat
  | .atom _ => 1
  | .var _ => 1
  | .fn domain range => domain.size + range.size + 1
  | .prod factors => sizeOfAll factors + 1

/-- The number of constructors in a list of types. -/
def sizeOfAll : List Ty → Nat
  | [] => 0
  | ty :: rest => ty.size + sizeOfAll rest

end

section Letters

attribute [local simp] letters lettersOfAll

theorem lettersOfAll_eq_flatMap (types : List Ty) :
    lettersOfAll types = types.flatMap letters := by
  induction types with
  | nil =>
      rfl
  | cons ty rest inductionHypothesis =>
      simp [inductionHypothesis]

end Letters

/-- A letter occurs in a product exactly when it occurs in a factor. -/
theorem mem_letters_prod
    {letter : Char}
    {factors : List Ty} :
    letter ∈ (Ty.prod factors).letters ↔
      ∃ factor ∈ factors, letter ∈ factor.letters := by
  simp [letters, lettersOfAll_eq_flatMap]

@[simp] theorem mem_letterListing
    {letter : Char}
    {ty : Ty} :
    letter ∈ ty.letterListing ↔ letter ∈ ty.letters := by
  simp [letterListing]

/-- Every type has at least one constructor. -/
theorem size_pos (ty : Ty) : 0 < ty.size := by
  cases ty <;> simp [size]

end Ty

end TypedLambda
