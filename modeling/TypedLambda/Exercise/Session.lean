import TypedLambda.Exercise.Feedback
import TypedLambda.Term.Equivalence
import TypedLambda.Term.Reader

namespace TypedLambda

/-!
# Conversion exercises

A student repeats a derivation one step at a time. The steps done and the
steps to come are kept apart, so the state of an exercise is always a place in
its derivation. A beta step may be given in one go with the renaming before
it; the exercise then moves on by two steps.
-/

/-- A derivation with the place that the student has got to. -/
structure Exercise where
  /-- The term to reduce. -/
  start : Term
  /-- The steps done, the last one first. -/
  completed : List Step
  /-- The steps to come, the next one first. -/
  pending : List Step
  /-- How written answers are understood. -/
  options : ReadingOptions
  deriving Repr, DecidableEq

/-- An answer compared with the result of a beta step. -/
def Feedback.compare? (answer expected : Term) : Option Feedback :=
  if answer.alphaEquivalent expected then
    some (.correct .beta)
  else if answer.reorderEquivalent expected then
    some (.correctUpToOrder .beta)
  else
    none

namespace Exercise

/-- The exercise of reducing a term, unless that takes more steps than the limit. -/
def ofTerm (term : Term) (limit : Nat) : Except EvaluationError Exercise := do
  let steps ← term.derivation limit
  return ⟨term, [], steps, .standard⟩

/-- Understand written answers in another way from now on. -/
def withOptions (exercise : Exercise) (options : ReadingOptions) : Exercise :=
  { exercise with options := options }

/-- Every step of the derivation. -/
def steps (exercise : Exercise) : List Step :=
  exercise.completed.reverse ++ exercise.pending

/-- The term that the next answer has to be one step away from. -/
def current (exercise : Exercise) : Term :=
  match exercise.completed with
  | [] => exercise.start
  | step :: _ => step.result

/-- Whether no step is left. -/
def isFinished (exercise : Exercise) : Bool :=
  exercise.pending.isEmpty

/-- Move on by a number of steps. -/
def advance (exercise : Exercise) (count : Nat) : Exercise :=
  { exercise with
    completed := (exercise.pending.take count).reverse ++ exercise.completed
    pending := exercise.pending.drop count }

/-- Whether the next step of a term is a renaming. -/
def needsRenaming (term : Term) : Bool :=
  match term.step? with
  | .ok (some step) => step.kind = .alpha
  | _ => false

/-- An answer that is right for the next step, the steps after it being given. -/
def accepted? (answer : Term) (next : Step) (later : List Step) : Option Feedback :=
  match next.kind with
  | .beta => Feedback.compare? answer next.result
  | .alpha =>
      if answer.reorderEquivalent next.result && !needsRenaming answer then
        if answer.alphaEquivalent next.result then
          some (.correct .alpha)
        else
          some (.correctUpToOrder .alpha)
      else
        match later with
        | [] => none
        | beta :: _ => Feedback.compare? answer beta.result

/-- How many of the pending steps an answer for the next beta step completes. -/
def stepsToBeta (next : Step) : Nat :=
  match next.kind with
  | .alpha => 2
  | .beta => 1

/-- How many steps an answer leaves out that is right for a step after the next. -/
def skipped? (answer : Term) (next : Step) (later : List Step) : Option Nat :=
  let first := stepsToBeta next
  let ahead := (next :: later).drop first
  (ahead.findIdx? fun step => (Feedback.compare? answer step.result).isSome).map (first + ·)

/-- The term with the argument put in for a name, captures and bound occurrences included. -/
def substitutedFor (name : String) (redex : Redex) : Term :=
  Term.replaceVariable name redex.argument redex.body

/-- The body of a redex with the argument put in naively. -/
def substituted (redex : Redex) : Term :=
  Term.substitute redex.bound.name redex.argument redex.body

/-- The redex with the argument put in and the abstraction kept. -/
def substitutedUnderLambda (redex : Redex) : Term :=
  .bind .lambda redex.bound (substituted redex)

/-- The redex with the argument put in and both abstraction and argument kept. -/
def substitutedInRedex (redex : Redex) : Term :=
  .app (substitutedUnderLambda redex) redex.argument

/-- Whether an answer is a term with its leftmost redex replaced in a certain way. -/
def isReplacement (answer current : Term) (replacement : Redex → Term) : Bool :=
  match current.replaceLeftmostRedex? replacement with
  | some candidate => answer.alphaEquivalent candidate
  | none => false

/-- The variable that the argument was put in for, if it is not the bound one. -/
def mistakenVariable? (answer current : Term) : Option String :=
  match current.leftmostRedex? with
  | none => none
  | some place =>
      (place.redex.body.variableNames.filter (· ≠ place.redex.bound.name)).find? fun name =>
        isReplacement answer current (substitutedFor name)

/-- The usual mistake that explains a wrong answer, or none. -/
def mistake (answer current : Term) (next : Step) : Feedback :=
  if next.kind = .alpha && isReplacement answer current substituted then
    .variableCaptured
  else if isReplacement answer current substitutedUnderLambda ||
      isReplacement answer current substitutedInRedex then
    .lambdaNotRemoved
  else
    match mistakenVariable? answer current with
    | some name => .wrongVariable name
    | none => .incorrect

/-- The judgement on an answer. -/
def judge (exercise : Exercise) (answer : Term) : Feedback :=
  match exercise.pending with
  | [] => .finished
  | next :: later =>
      match answer.typeOf with
      | .error reason => .illTyped reason
      | .ok _ =>
          match accepted? answer next later with
          | some feedback => feedback
          | none =>
              if answer.reorderEquivalent exercise.current then
                .unchanged
              else
                match skipped? answer next later with
                | some skipped => .notSoFast skipped
                | none => mistake answer exercise.current next

/-- How many steps a judgement moves the exercise on by. -/
def progress (exercise : Exercise) : Feedback → Nat
  | .correct .beta => (exercise.pending.head?.map stepsToBeta).getD 0
  | .correctUpToOrder .beta => (exercise.pending.head?.map stepsToBeta).getD 0
  | .correct .alpha => 1
  | .correctUpToOrder .alpha => 1
  | _ => 0

/-- Judge an answer, and move on if it is correct. -/
def check (exercise : Exercise) (answer : Term) : Feedback × Exercise :=
  let feedback := exercise.judge answer
  (feedback, exercise.advance (exercise.progress feedback))

/-- Read an answer, judge it, and move on if it is correct. -/
def checkText
    (exercise : Exercise)
    (text : String) :
    Except SyntaxError (Feedback × Exercise) := do
  let answer ← Term.read exercise.options text
  return exercise.check answer

end Exercise

end TypedLambda
