import TypedLambda.Proofs.Conversion.Runs
import TypedLambda.Proofs.Exercise.Progress
import TypedLambda.Proofs.Typing.TypeSafety

namespace TypedLambda.Exercise

/-!
# Exercises as runs

The steps of an exercise are a run from its term to one without redexes, and
requests change neither. So wherever an exercise has got to, the steps done lead
to the current term and the pending ones go on from there, and what every step
keeps holds of the current term and of all results that are still to come.
-/

open Term (Derives)

/-- The steps are a run from the start to a term without redexes. -/
def Consistent (exercise : Exercise) : Prop :=
  ∃ last, Derives exercise.start exercise.steps last ∧ last.RedexFree

section Reached

variable
  {term : Term}
  {limit : Nat}
  {initial state : Exercise}
  {requests : List Request}
  (made : ofTerm term limit = .ok initial)
  (reached : initial.performAll requests = state)

include made reached

/-- Whatever is asked of an exercise, it goes on starting from its term. -/
theorem start_of_reached : state.start = term := by
  obtain ⟨steps, _, rfl⟩ := ofTerm_eq_ok_iff.mp made
  rw [← reached]
  exact (performAll_continues _ requests).sameStart

/-- Whatever is asked of an exercise, its steps are a run. -/
theorem consistent_of_reached : state.Consistent := by
  obtain ⟨steps, derived, rfl⟩ := ofTerm_eq_ok_iff.mp made
  obtain ⟨_, run⟩ := Term.derivationWithin_eq_ok_iff.mp derived
  have continues := performAll_continues ⟨term, [], steps, .standard⟩ requests
  rw [reached] at continues
  rw [Consistent, continues.sameStart, continues.sameSteps]
  exact run

end Reached

namespace Consistent

variable {exercise : Exercise} (consistent : exercise.Consistent)

include consistent

/-- The current term is where the steps done end and the pending ones begin. -/
theorem exists_run :
    Derives exercise.start exercise.completed.reverse exercise.current ∧
      ∃ last, Derives exercise.current exercise.pending last ∧ last.RedexFree := by
  obtain ⟨last, run, free⟩ := consistent
  obtain ⟨between, toBetween, fromBetween⟩ := run.exists_between
  have isCurrent : exercise.current = between := by
    rw [← toBetween.last_eq, current, List.getLast?_reverse]
    cases exercise.completed <;> rfl
  rw [isCurrent]
  exact ⟨toBetween, last, fromBetween, free⟩

/-- The pending step is the one that the current term has. -/
theorem step?_current
    {next : Step}
    {later : List Step}
    (pending : exercise.pending = next :: later) :
    exercise.current.step? = .ok (some next) := by
  obtain ⟨_, _, remaining, _⟩ := consistent.exists_run
  rw [pending] at remaining
  cases remaining with
  | step stepped _ =>
      exact stepped

/-- What every step keeps holds of the current term and of the results to come. -/
theorem forall_result
    (holds : Term → Prop)
    (kept :
      ∀ (term : Term) (step : Step),
        holds term → term.step? = .ok (some step) → holds step.result)
    (initially : holds exercise.start) :
    holds exercise.current ∧ ∀ step ∈ exercise.pending, holds step.result := by
  obtain ⟨toCurrent, _, remaining, _⟩ := consistent.exists_run
  have now := (toCurrent.forall_result holds kept initially).1
  exact ⟨now, (remaining.forall_result holds kept now).2⟩

/-- If the start has a type, the current term and the results to come have it too. -/
theorem typed
    {ty : Ty}
    (typedStart : Term.Typed .empty exercise.start ty) :
    Term.Typed .empty exercise.current ty ∧
      ∀ step ∈ exercise.pending, Term.Typed .empty step.result ty :=
  consistent.forall_result (Term.Typed .empty · ty)
    (fun _ step before stepped => before.converts ⟨step.kind, stepped⟩) typedStart

/-- Moving on leaves the steps as they are. -/
theorem advance (count : Nat) : (exercise.advance count).Consistent := by
  obtain ⟨last, run, free⟩ := consistent
  rw [← @steps_advance exercise count] at run
  exact ⟨last, run, free⟩

end Consistent

/-- The current term of a state that is reached has the next pending step. -/
theorem step?_current
    {term : Term}
    {limit : Nat}
    {initial state : Exercise}
    {requests : List Request}
    {next : Step}
    {later : List Step}
    (made : ofTerm term limit = .ok initial)
    (reached : initial.performAll requests = state)
    (pending : state.pending = next :: later) :
    state.current.step? = .ok (some next) :=
  (consistent_of_reached made reached).step?_current pending

end TypedLambda.Exercise
