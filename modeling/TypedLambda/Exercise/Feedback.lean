import TypedLambda.Conversion.Derivation

namespace TypedLambda

/-!
# Feedback

What a student is told about an answer in a conversion exercise.
-/

/-- The judgement on one answer. -/
inductive Feedback where
  /-- The answer is the next step, up to the names of bound variables. -/
  | correct (kind : StepKind)
  /-- The answer is the next step, up to order and grouping as well. -/
  | correctUpToOrder (kind : StepKind)
  /-- The answer is a later step; so many steps are left out. -/
  | notSoFast (skipped : Nat)
  /-- The answer is the current term. -/
  | unchanged
  /-- The argument has been put in where a renaming was needed first. -/
  | variableCaptured
  /-- The argument has been put in for another variable. -/
  | wrongVariable (name : String)
  /-- The argument has been put in, but the abstraction is still there. -/
  | lambdaNotRemoved
  /-- The answer has no type. -/
  | illTyped (reason : TypeError)
  /-- The answer is not the next step, and no usual mistake either. -/
  | incorrect
  /-- There is no step left. -/
  | finished
  deriving Repr, DecidableEq

namespace Feedback

/-- Whether the answer has been accepted. -/
def isCorrect : Feedback → Bool
  | .correct _ => true
  | .correctUpToOrder _ => true
  | _ => false

/-- The message shown to the student. -/
def message : Feedback → String
  | .correct .alpha => "Correct: the bound variables no longer capture the argument."
  | .correct .beta => "Correct."
  | .correctUpToOrder _ => "Correct, up to the order of conjuncts or disjuncts."
  | .notSoFast skipped =>
      s!"Not so fast: that skips {skipped} step(s). Do one step at a time."
  | .unchanged => "The expression has not changed."
  | .variableCaptured =>
      "A free variable of the argument was captured. Rename a bound variable first."
  | .wrongVariable name =>
      s!"The argument was substituted for {name} instead of the lambda variable."
  | .lambdaNotRemoved => "The lambda and its argument should be gone after substituting."
  | .illTyped reason => s!"The answer is not well-typed: {reason.message}"
  | .incorrect => "That is not the next step."
  | .finished => "The exercise is already finished."

end Feedback

end TypedLambda
