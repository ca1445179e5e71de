import TypedLambda.Proofs.Conversion.BoundNames
import TypedLambda.Proofs.Exercise.RearrangedAnswers

namespace TypedLambda

/-!
# Renamed answers

Where a renaming is to be done, bound variables may get any names that do what
the renaming is for. An answer that differs from the current term in names only
is accepted as the renaming exactly if the argument of its own leftmost redex
can be put in without capture, however the reference answer has called the
variables. What comes of putting it in is then the next result, up to names.
-/

open Term (Derives Typed)

namespace Exercise

section Answer

variable {answer : Term} {ty : Ty} {contracted : Term.Nameless}

/--
A regular answer that can be contracted needs a renaming exactly if its leftmost
redex captures something, and if it needs none its next step is the contraction.
-/
theorem exists_leftmostRedex
    (regular : answer.Regular)
    (typeFound : answer.typeOf = .ok ty)
    (contracts : answer.nameless.contractLeftmost? = some contracted) :
    ∃ place,
      answer.leftmostRedex? = some place ∧
        (needsRenaming answer = false ↔ ¬place.redex.Captures) ∧
        (needsRenaming answer = false →
          ∃ step,
            answer.step? = .ok (some step) ∧
              step.kind = .beta ∧
              step.result.nameless = contracted) := by
  have typed : Typed .empty answer ty :=
    ⟨regular.monomorphic, regular.annotated,
      (Term.typeOf_eq_ok_iff regular.monomorphic).mp typeFound⟩
  cases found : answer.leftmostRedex? with
  | none =>
      have free := Term.leftmostRedex?_eq_none_iff.mp found
      simp [free.contractLeftmost?_nameless] at contracts
  | some place =>
      refine ⟨place, rfl, ?_⟩
      by_cases captures : place.redex.Captures
      · have needs : needsRenaming answer = true := by
          simp [needsRenaming, typed.step?_of_captures found captures]
        simp [needs, captures]
      · have stepped := typed.step?_of_not_captures found captures
        have needsNot : needsRenaming answer = false := by
          simp [needsRenaming, stepped]
        obtain ⟨alpha, _⟩ | ⟨beta, sameContraction⟩ := regular.nameless_step stepped
        · cases alpha
        · refine ⟨by simp [needsNot, captures], fun _ => ⟨_, stepped, beta, ?_⟩⟩
          exact Option.some.inj (sameContraction.symm.trans contracts)

/-- An answer is the renaming exactly if it is the expected term up to names and needs no other. -/
theorem judge_eq_correct_alpha_iff
    {state : Exercise}
    {next : Step}
    {later : List Step}
    (pending : state.pending = next :: later)
    (alpha : next.kind = .alpha)
    (typeFound : answer.typeOf = .ok ty) :
    state.judge answer = .correct .alpha ↔
      answer.alphaEquivalent next.result = true ∧ needsRenaming answer = false := by
  have accepts_iff := acceptsRenaming_judge_iff pending alpha typeFound
  constructor
  · intro correct
    obtain ⟨same, needsNot⟩ := accepts_iff.mp (.inl correct)
    refine ⟨?_, needsNot⟩
    by_contra different
    simp [judge, pending, typeFound, accepted?, alpha, same, needsNot, different] at correct
  · rintro ⟨equivalent, needsNot⟩
    have same := Term.reorderEquivalent_of_alphaEquivalent equivalent
    simp [judge, pending, typeFound, accepted?, alpha, same, needsNot, equivalent]

end Answer

/-- After a renaming comes the contraction of what was renamed. -/
theorem Consistent.exists_contraction
    {exercise : Exercise}
    {next : Step}
    {later : List Step}
    (consistent : exercise.Consistent)
    (regular : exercise.current.Regular)
    (pending : exercise.pending = next :: later)
    (alpha : next.kind = .alpha) :
    next.result.nameless = exercise.current.nameless ∧
      ∃ following rest,
        later = following :: rest ∧
          exercise.current.nameless.contractLeftmost? = some following.result.nameless := by
  obtain ⟨_, last, run, free⟩ := consistent.exists_run
  rw [pending] at run
  obtain _ | ⟨stepped, rest⟩ := run
  obtain ⟨_, same⟩ | ⟨beta, _⟩ := regular.nameless_step stepped
  · refine ⟨same, ?_⟩
    cases rest with
    | done =>
        -- The redex that was renamed is still there.
        obtain ⟨_, _, _, foundAgain⟩ := Term.leftmostRedex?_of_alpha stepped alpha
        simp [Term.leftmostRedex?_eq_none_iff.mpr free] at foundAgain
    | @step _ _ following others steppedAgain _ =>
        have isBeta := Term.kind_eq_beta_of_alpha stepped alpha steppedAgain
        obtain ⟨isAlpha, _⟩ | ⟨_, contracts⟩ :=
          (regular.step stepped).nameless_step steppedAgain
        · simp [isBeta] at isAlpha
        · exact ⟨following, others, rfl, same ▸ contracts⟩
  · simp [beta] at alpha

/--
How an answer is judged where a renaming is to be done. Let the term of the
exercise be regular, and let the answer have a type and no free variable that is
called like a canonical one. The answer is the renaming exactly if it differs
from the current term in the names of bound variables only and the argument of
its leftmost redex can be put in without capture. This is its next step then,
and the result differs only in names from that of the step after the renaming.
-/
theorem check_eq_correct_alpha_iff
    {term : Term}
    {limit : Nat}
    {initial state : Exercise}
    {requests : List Request}
    {next : Step}
    {answer : Term}
    {ty : Ty}
    (regular : term.Regular)
    (made : ofTerm term limit = .ok initial)
    (reached : initial.performAll requests = state)
    (isNext : state.steps[state.done]? = some next)
    (alpha : next.kind = .alpha)
    (typeFound : answer.typeOf = .ok ty)
    (unmarked : answer.Unmarked) :
    ((state.check answer).1 = .correct .alpha ↔
        answer.alphaEquivalent state.current = true ∧
          ∃ place, answer.leftmostRedex? = some place ∧ ¬place.redex.Captures) ∧
      ((state.check answer).1 = .correct .alpha →
        ∃ step following,
          answer.step? = .ok (some step) ∧
            step.kind = .beta ∧
            state.steps[state.done + 1]? = some following ∧
            step.result.alphaEquivalent following.result = true) := by
  rw [steps_getElem?_done] at isNext
  obtain ⟨later, pending⟩ := List.head?_eq_some_iff.mp isNext
  have consistent := consistent_of_reached made reached
  obtain ⟨regularNow, regularLater⟩ :=
    consistent.forall_result Term.Regular (fun _ _ before stepped => before.step stepped)
      (start_of_reached made reached ▸ regular)
  obtain ⟨sameNext, following, rest, isLater, contracts⟩ :=
    consistent.exists_contraction regularNow pending alpha
  have regularNext := regularLater next (by simp [pending])
  have isFollowing : state.steps[state.done + 1]? = some following := by
    simp [steps, done, pending, isLater]
  -- The expected term is the current one up to names, so it does not matter which is compared.
  have equivalent_iff :
      answer.alphaEquivalent next.result = true ↔
        answer.alphaEquivalent state.current = true := by
    rw [unmarked.alphaEquivalent_iff regularNext.unmarked,
      unmarked.alphaEquivalent_iff regularNow.unmarked, sameNext]
  have correct_iff :
      (state.check answer).1 = .correct .alpha ↔
        answer.alphaEquivalent state.current = true ∧ needsRenaming answer = false := by
    rw [← equivalent_iff]
    exact judge_eq_correct_alpha_iff pending alpha typeFound
  have likeCurrent (equivalent : answer.alphaEquivalent state.current = true) :
      answer.nameless = state.current.nameless :=
    (unmarked.alphaEquivalent_iff regularNow.unmarked).mp equivalent
  have answerRegular (equivalent : answer.alphaEquivalent state.current = true) :
      answer.Regular :=
    regularNow.of_nameless_eq unmarked (likeCurrent equivalent).symm
  have ofEquivalent (equivalent : answer.alphaEquivalent state.current = true) :=
    exists_leftmostRedex (answerRegular equivalent) typeFound
      (likeCurrent equivalent ▸ contracts)
  constructor
  · rw [correct_iff]
    refine and_congr_right fun equivalent => ?_
    obtain ⟨place, found, needsNot_iff, _⟩ := ofEquivalent equivalent
    simp [found, needsNot_iff]
  · intro correct
    obtain ⟨equivalent, needsNot⟩ := correct_iff.mp correct
    obtain ⟨_, _, _, next⟩ := ofEquivalent equivalent
    obtain ⟨step, stepped, beta, sameResult⟩ := next needsNot
    have regularResult := (answerRegular equivalent).step stepped
    have regularFollowing := regularLater following (by simp [pending, isLater])
    exact ⟨step, following, stepped, beta, isFollowing,
      (regularResult.unmarked.alphaEquivalent_iff regularFollowing.unmarked).mpr sameResult⟩

/--
In the exercise of reducing (λx.∀y.R(x,y))(y) the answer (λx.∀z.R(x,z))(y) is the
renaming, although the reference answer calls the variable y'.
-/
theorem check_eq_correct_alpha_relatedToAll :
    ∃ initial,
      ofTerm (Term.relatedToAll "y").toTerm 2 = .ok initial ∧
        initial.steps.map Step.result =
          [(Term.relatedToAll "y'").toTerm, Term.allRelated "y'"] ∧
        (initial.check (Term.relatedToAll "z").toTerm).1 = .correct .alpha := by
  have contracted :
      (Term.relatedToAll "y'").toTerm.step? = .ok (some ⟨.beta, Term.allRelated "y'"⟩) :=
    Term.step?_relatedToAll (by decide) (by decide)
  have redexFree : (Term.allRelated "y'").RedexFree :=
    Term.step?_eq_ok_none_iff.mp rfl
  have derived :
      (Term.relatedToAll "y").toTerm.derivation 2 =
        .ok [⟨.alpha, (Term.relatedToAll "y'").toTerm⟩, ⟨.beta, Term.allRelated "y'"⟩] :=
    Term.derivationWithin_eq_ok_iff.mpr
      ⟨by decide, _, .step Term.step?_relatedToAll_captured (.step contracted (.done _)),
        redexFree⟩
  have made := ofTerm_eq_ok_iff.mpr ⟨_, derived, rfl⟩
  have typed : Typed .empty (Term.relatedToAll "y").toTerm .truth :=
    Term.typed_relatedToAll (by decide)
  have typedAnswer : Typed .empty (Term.relatedToAll "z").toTerm .truth :=
    Term.typed_relatedToAll (by decide)
  have regular : (Term.relatedToAll "y").toTerm.Regular :=
    ⟨typed.monomorphic, typed.annotated, Term.unmarked_of_identifiers (by decide +kernel)⟩
  have unmarked : (Term.relatedToAll "z").toTerm.Unmarked :=
    Term.unmarked_of_identifiers (by decide +kernel)
  have equivalent :
      (Term.relatedToAll "z").toTerm.alphaEquivalent (Term.relatedToAll "y").toTerm = true := by
    decide +kernel
  obtain ⟨correct_iff, _⟩ :=
    check_eq_correct_alpha_iff regular made (performAll_nil _) rfl rfl
      typedAnswer.typeOf_eq_ok unmarked
  exact ⟨_, made, rfl, correct_iff.mpr
    ⟨equivalent, _, Term.leftmostRedex?_relatedToAll,
      Term.not_captures_relatedToAll (by decide)⟩⟩

end Exercise

end TypedLambda
