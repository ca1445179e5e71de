import TypedLambda.Operator
import TypedLambda.Ty.Substitution

namespace TypedLambda

/-!
# Terms

The terms of a typed lambda calculus with quantifiers, descriptions,
connectives, equality and relations between sets. A function takes several
arguments as a tuple. Every variable and constant carries its type, and bound
variables have names, so equality of terms is literal.

Because tuples hold a list, functions on terms come in pairs, one for a term
and one for the items of a tuple, and proofs go by `Term.induction`, whose
case for tuples assumes the statement of every item.
-/

/-- A name with its type. -/
structure Identifier where
  name : String
  ty : Ty
  deriving Repr, DecidableEq

namespace Identifier

/-- Replace the type variables of an identifier. -/
def instantiate (substitution : Ty.Substitution) (identifier : Identifier) : Identifier :=
  ⟨identifier.name, substitution.apply identifier.ty⟩

/-- Identifiers are ordered by name, and by type where they share a name. -/
def precedes (left right : Identifier) : Bool :=
  if left.name = right.name then
    left.ty.precedes right.ty
  else
    Sorting.namePrecedes left.name right.name

end Identifier

/-- A typed term with named variables. -/
inductive Term where
  /-- An occurrence of a variable. -/
  | var (identifier : Identifier)
  /-- A constant. -/
  | const (identifier : Identifier)
  /-- A binder with its variable and its body. -/
  | bind (binder : Binder) (bound : Identifier) (body : Term)
  /-- A function applied to an argument. -/
  | app (function argument : Term)
  /-- A tuple of any number of items. -/
  | tuple (items : List Term)
  /-- A negation. -/
  | neg (operand : Term)
  /-- Two terms joined by a connective. -/
  | connect (connective : Connective) (left right : Term)
  /-- An equation. -/
  | equal (left right : Term)
  /-- Two sets in a relation. -/
  | relate (relation : SetRelation) (left right : Term)
  deriving Repr

namespace Term

/-- A statement holds of every term if each constructor preserves it. -/
@[induction_eliminator]
theorem induction
    {motive : Term → Prop}
    (var : ∀ identifier, motive (.var identifier))
    (const : ∀ identifier, motive (.const identifier))
    (bind : ∀ binder bound body, motive body → motive (.bind binder bound body))
    (app : ∀ function argument, motive function → motive argument →
      motive (.app function argument))
    (tuple : ∀ items, (∀ item ∈ items, motive item) → motive (.tuple items))
    (neg : ∀ operand, motive operand → motive (.neg operand))
    (connect : ∀ connective left right, motive left → motive right →
      motive (.connect connective left right))
    (equal : ∀ left right, motive left → motive right → motive (.equal left right))
    (relate : ∀ relation left right, motive left → motive right →
      motive (.relate relation left right))
    (term : Term) :
    motive term :=
  @Term.rec motive (fun items => ∀ item ∈ items, motive item)
    var const bind app tuple neg connect equal relate
    (fun _ absent => by simp at absent)
    (fun head tail headHolds tailHolds item member => by
      rcases List.mem_cons.mp member with rfl | member
      · exact headHolds
      · exact tailHolds item member)
    term

mutual

/-- Whether two terms are literally the same. -/
def same : Term → Term → Bool
  | .var left, .var right => left = right
  | .const left, .const right => left = right
  | .bind binder bound body, .bind otherBinder otherBound otherBody =>
      binder = otherBinder && bound = otherBound && body.same otherBody
  | .app function argument, .app otherFunction otherArgument =>
      function.same otherFunction && argument.same otherArgument
  | .tuple items, .tuple others => allSame items others
  | .neg operand, .neg other => operand.same other
  | .connect connective left right, .connect otherConnective otherLeft otherRight =>
      connective = otherConnective && left.same otherLeft && right.same otherRight
  | .equal left right, .equal otherLeft otherRight =>
      left.same otherLeft && right.same otherRight
  | .relate relation left right, .relate otherRelation otherLeft otherRight =>
      relation = otherRelation && left.same otherLeft && right.same otherRight
  | _, _ => false

/-- Whether two lists hold literally the same terms. -/
def allSame : List Term → List Term → Bool
  | [], [] => true
  | left :: lefts, right :: rights => left.same right && allSame lefts rights
  | _, _ => false

end

/-- The comparison finds out equality. -/
theorem same_iff {left right : Term} : left.same right = true ↔ left = right := by
  induction left generalizing right with
  | tuple items inductionHypothesis =>
      cases right with
      | tuple others =>
          simp only [same, Term.tuple.injEq]
          induction items generalizing others with
          | nil =>
              cases others <;> simp [allSame]
          | cons head tail tailHypothesis =>
              cases others with
              | nil =>
                  simp [allSame]
              | cons other others =>
                  simp [allSame, inductionHypothesis head (by simp),
                    tailHypothesis (fun item member =>
                      inductionHypothesis item (by simp [member]))]
      | _ =>
          simp [same]
  | _ =>
      cases right <;> simp_all [same, and_assoc]

instance : DecidableEq Term := fun left right =>
  decidable_of_iff (left.same right = true) same_iff

/-- The terms directly below the root, from left to right. -/
def children : Term → List Term
  | .var _ => []
  | .const _ => []
  | .bind _ _ body => [body]
  | .app function argument => [function, argument]
  | .tuple items => items
  | .neg operand => [operand]
  | .connect _ left right => [left, right]
  | .equal left right => [left, right]
  | .relate _ left right => [left, right]

mutual

/-- Replace the type variables of every identifier. -/
def instantiate (substitution : Ty.Substitution) : Term → Term
  | .var identifier => .var (identifier.instantiate substitution)
  | .const identifier => .const (identifier.instantiate substitution)
  | .bind binder bound body =>
      .bind binder (bound.instantiate substitution) (body.instantiate substitution)
  | .app function argument =>
      .app (function.instantiate substitution) (argument.instantiate substitution)
  | .tuple items => .tuple (instantiateAll substitution items)
  | .neg operand => .neg (operand.instantiate substitution)
  | .connect connective left right =>
      .connect connective (left.instantiate substitution) (right.instantiate substitution)
  | .equal left right =>
      .equal (left.instantiate substitution) (right.instantiate substitution)
  | .relate relation left right =>
      .relate relation (left.instantiate substitution) (right.instantiate substitution)

/-- Replace the type variables in every term of a list. -/
def instantiateAll (substitution : Ty.Substitution) : List Term → List Term
  | [] => []
  | term :: rest => term.instantiate substitution :: instantiateAll substitution rest

end

section Instantiate

attribute [local simp] instantiate instantiateAll

theorem instantiateAll_eq_map (substitution : Ty.Substitution) (terms : List Term) :
    instantiateAll substitution terms = terms.map (instantiate substitution) := by
  induction terms with
  | nil =>
      rfl
  | cons term rest inductionHypothesis =>
      simp [inductionHypothesis]

end Instantiate

end Term

end TypedLambda
