import TypedLambda.Proofs.Exercise.RearrangedAnswers
import TypedLambda.Proofs.Reordering.Contraction

namespace TypedLambda

/-!
# Resubmitting the current term

The current term is no answer to the next step, although answers are compared
up to order and before it is asked whether anything has changed. Where an
argument is to be put in, the result is never the term itself reordered. Where
a renaming is to be done, the result is the term itself with other names, but
the term still needs the renaming, and what follows the renaming is what the
term reduces to.
-/

open Term (Derives Typed)

namespace Exercise

/-- A term is not accepted as what becomes of it. -/
theorem accepted?_eq_none
    {current last : Term}
    {next : Step}
    {later : List Step}
    {ty : Ty}
    (typed : Typed .empty current ty)
    (ordinary : current.IsOrdinary)
    (run : Derives current (next :: later) last) :
    accepted? current next later = none := by
  obtain _ | ⟨stepped, rest⟩ := run
  have ordinaryNext := ordinary.step typed.monomorphic stepped
  unfold accepted?
  cases kind : next.kind with
  | beta =>
      have reduces := typed.reduces_of_beta stepped kind
      exact Feedback.compare?_eq_none
        (typed.reorderEquivalent_eq_false ordinary ordinaryNext reduces)
  | alpha =>
      have needs : needsRenaming current = true := by
        simp [needsRenaming, stepped, kind]
      simp only [needs, Bool.not_true, Bool.and_false, Bool.false_eq_true, ↓reduceIte]
      cases rest with
      | done =>
          rfl
      | step steppedAgain _ =>
          -- The contraction after the renaming reduces the same nameless term.
          have typedNext := typed.converts ⟨_, stepped⟩
          have beta := Term.kind_eq_beta_of_alpha stepped kind steppedAgain
          have reduces := typedNext.reduces_of_beta steppedAgain beta
          rw [typed.nameless_eq_of_alpha stepped kind] at reduces
          have ordinaryAfter := ordinaryNext.step typedNext.monomorphic steppedAgain
          exact Feedback.compare?_eq_none
            (typed.reorderEquivalent_eq_false ordinary ordinaryAfter reduces)

/--
Submitting the current term again never advances an exercise. Let the term of
the exercise have a type, no type variables, ordinary names and the types of
binders at the occurrences that they bind. Then in every unfinished state that
is reached, the current term is judged to be unchanged, and nothing changes.
-/
theorem check_current
    {term : Term}
    {ty : Ty}
    {limit : Nat}
    {initial state : Exercise}
    {requests : List Request}
    (monomorphic : term.Monomorphic)
    (annotated : term.Annotated)
    (ordinary : term.IsOrdinary)
    (typeFound : term.typeOf = .ok ty)
    (made : ofTerm term limit = .ok initial)
    (reached : initial.performAll requests = state)
    (unfinished : state.isFinished = false) :
    state.check state.current = (.unchanged, state) := by
  have consistent := consistent_of_reached made reached
  have typedStart : Typed .empty term ty :=
    ⟨monomorphic, annotated, (Term.typeOf_eq_ok_iff monomorphic).mp typeFound⟩
  obtain ⟨⟨typed, ordinaryNow⟩, _⟩ :=
    consistent.forall_result (fun term => Typed .empty term ty ∧ term.IsOrdinary)
      (fun _ step before stepped =>
        ⟨before.1.converts ⟨step.kind, stepped⟩, before.2.step before.1.monomorphic stepped⟩)
      (start_of_reached made reached ▸ ⟨typedStart, ordinary⟩)
  obtain ⟨_, last, run, _⟩ := consistent.exists_run
  cases pending : state.pending with
  | nil =>
      simp [isFinished, pending] at unfinished
  | cons next later =>
      rw [pending] at run
      have sameAsItself : state.current.reorderEquivalent state.current = true := by
        simp [Term.reorderEquivalent]
      have judged : state.judge state.current = .unchanged := by
        simp [judge, pending, typed.typeOf_eq_ok, accepted?_eq_none typed ordinaryNow run, sameAsItself]
      simp [check, judged, progress]

/--
In the exercise of reducing (λx.∃y.R(x,y) ∧ P(y))(y) ∧ (λx.P(x))(a) the term
itself is no answer, although it differs from the right one in names only.
-/
theorem check_current_redexPair :
    ∃ initial,
      ofTerm (redexPair (quantifiedAtY "y") holdsAtA) 3 = .ok initial ∧
        initial.check (redexPair (quantifiedAtY "y") holdsAtA) = (.unchanged, initial) := by
  obtain ⟨later, derived⟩ := exists_derivation_redexPair
  have made := ofTerm_eq_ok_iff.mpr ⟨_, derived, rfl⟩
  have typed := typed_redexPair typed_quantifiedAtY typed_holdsAtA
  have ordinary : (redexPair (quantifiedAtY "y") holdsAtA).IsOrdinary := by
    decide +kernel
  exact ⟨_, made,
    check_current typed.monomorphic typed.annotated ordinary typed.typeOf_eq_ok made
      (performAll_nil _) rfl⟩

end Exercise

end TypedLambda
