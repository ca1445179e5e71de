import TypedLambda.Conversion.Contraction

namespace TypedLambda

/-!
# Derivations

A conversion step works on the leftmost redex of a term. A derivation repeats
it until no redex is left, within a limit on the number of steps.
-/

/-- A conversion step and the term that it leads to. -/
structure Step where
  kind : StepKind
  result : Term
  deriving Repr, DecidableEq

/-- Why a term could not be reduced to the end. -/
inductive EvaluationError where
  /-- More steps are needed than allowed. -/
  | limitExceeded (limit : Nat)
  /-- The function and the argument of a redex do not fit together. -/
  | illTyped (reason : TypeError)
  deriving Repr, DecidableEq

namespace EvaluationError

/-- The message shown to the user. -/
def message : EvaluationError → String
  | .limitExceeded limit => s!"Reduction limit of {limit} steps exceeded"
  | .illTyped reason => s!"Ill-typed redex: {reason.message}"

end EvaluationError

namespace Term

/-- The next conversion step, if there is a redex. -/
def step? (term : Term) : Except TypeError (Option Step) :=
  match term.leftmostRedex? with
  | none => .ok none
  | some place => do
      let contraction ← place.redex.contract
      return some ⟨contraction.kind, place.replace contraction.result⟩

/--
The steps to a term without redexes, if a number of them suffices. The limit
is what the error reports.
-/
def derivationWithin
    (limit : Nat) :
    (remaining : Nat) → Term → Except EvaluationError (List Step)
  | remaining, term =>
      match term.step? with
      | .error reason => .error (.illTyped reason)
      | .ok none => .ok []
      | .ok (some step) =>
          match remaining with
          | 0 => .error (.limitExceeded limit)
          | remaining + 1 => do
              let steps ← derivationWithin limit remaining step.result
              return step :: steps

/-- Every step from a term down to one without redexes, within a limit. -/
def derivation (term : Term) (limit : Nat) : Except EvaluationError (List Step) :=
  derivationWithin limit limit term

/-- The term at the end of the derivation. -/
def evaluate (term : Term) (limit : Nat) : Except EvaluationError Term := do
  let steps ← term.derivation limit
  return (steps.getLast?.map Step.result).getD term

end Term

end TypedLambda
