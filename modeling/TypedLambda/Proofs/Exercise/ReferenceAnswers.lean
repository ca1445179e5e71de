import TypedLambda.Proofs.Exercise.RearrangedAnswers
import TypedLambda.Proofs.Term.ReadableSteps
import TypedLambda.Proofs.Term.RoundTrip
import TypedLambda.Proofs.Typing.ReadTerms

namespace TypedLambda

/-!
# Reference answers

The result of the pending step, as it is printed, is always accepted, and as
nothing but that step: it is read back as the term that it was printed from, it
has a type, and after a renaming no further renaming is needed. So wherever an
exercise has got to, it can be finished with the results of the steps that are
left.
-/

open Term (Typed)

namespace Exercise

section Judgement

variable {exercise : Exercise} {next : Step} {later : List Step} {ty : Ty}

/-- What a step leads to is the right answer for it, and needs no renaming where it is one. -/
theorem accepted?_result
    {current : Term}
    (stepped : current.step? = .ok (some next))
    (later : List Step) :
    accepted? next.result next later = some (.correct next.kind) := by
  have alphaEquivalent : next.result.alphaEquivalent next.result = true := by
    simp [Term.alphaEquivalent]
  have reorderEquivalent : next.result.reorderEquivalent next.result = true := by
    simp [Term.reorderEquivalent]
  unfold accepted?
  cases kind : next.kind with
  | beta =>
      simp [Feedback.compare?, alphaEquivalent]
  | alpha =>
      have needsNoRenaming : needsRenaming next.result = false := by
        unfold needsRenaming
        split
        · next following steppedAgain =>
            simp [Term.kind_eq_beta_of_alpha stepped kind steppedAgain]
        · rfl
      simp [reorderEquivalent, needsNoRenaming, alphaEquivalent]

/-- The result of the pending step completes this step and no other. -/
theorem check_result
    (pending : exercise.pending = next :: later)
    (stepped : exercise.current.step? = .ok (some next))
    (typed : next.result.typeOf = .ok ty) :
    exercise.check next.result = (.correct next.kind, exercise.advance 1) := by
  have judged : exercise.judge next.result = .correct next.kind := by
    simp [judge, pending, typed, accepted?_result stepped]
  have progressed : exercise.progress (.correct next.kind) = 1 := by
    cases kind : next.kind <;> simp [progress, pending, stepsToBeta, kind]
  simp only [check, judged, progressed]

end Judgement

/-- Every pending step of a term that was read leads to a readable term with a type. -/
theorem pending_readable
    {options : ReadingOptions}
    {text : String}
    {term : Term}
    {ty : Ty}
    {limit : Nat}
    {initial state : Exercise}
    {requests : List Request}
    (isGround : options.IsGround)
    (result : Term.read options text = .ok term)
    (typed : term.typeOf = .ok ty)
    (made : ofTerm term limit = .ok initial)
    (reached : initial.performAll requests = state) :
    ∀ step ∈ state.pending,
      step.result.Readable options ∧ step.result.typeOf = .ok ty := by
  have readable := Term.readable_of_read result
  have monomorphic := readable.monomorphic isGround
  have isTyped : Typed .empty term ty :=
    ⟨monomorphic, Term.annotated_of_read result, (Term.typeOf_eq_ok_iff monomorphic).mp typed⟩
  obtain ⟨_, kept⟩ :=
    (consistent_of_reached made reached).forall_result
      (fun term => term.Readable options ∧ Typed .empty term ty)
      (fun _ _ before stepped =>
        ⟨before.1.step isGround stepped, before.2.converts ⟨_, stepped⟩⟩)
      (by rw [start_of_reached made reached]; exact ⟨readable, isTyped⟩)
  intro step member
  obtain ⟨readableResult, typedResult⟩ := kept step member
  exact ⟨readableResult, typedResult.typeOf_eq_ok⟩

section Reference

variable
  {options : ReadingOptions}
  {text : String}
  {term : Term}
  {ty : Ty}
  {limit : Nat}
  {initial state : Exercise}
  {requests : List Request}
  {symbols : SymbolSet}

/-- The printed result of the pending step completes it. -/
theorem checkText_result
    (isGround : options.IsGround)
    (result : Term.read options text = .ok term)
    (typed : term.typeOf = .ok ty)
    (made : ofTerm term limit = .ok initial)
    (reached : initial.performAll requests = state)
    (installed : state.options = options)
    (allowed : symbols = .plain → options.letterBinders = true)
    {next : Step}
    {later : List Step}
    (pending : state.pending = next :: later) :
    state.checkText (next.result.text symbols) = .ok (.correct next.kind, state.advance 1) := by
  obtain ⟨readable, typedResult⟩ :=
    pending_readable isGround result typed made reached next (by simp [pending])
  rw [checkText, installed, readable.read_text allowed, Outcome.ok_bind,
    check_result pending (step?_current made reached pending) typedResult]
  rfl

/--
An exercise can be finished with the reference answers. Let the conventions
mention no type variables, and let the term have been read under them and have
a type. Then in every state that is reached, with these conventions installed,
the printed result of the pending step is judged as exactly this step and moves
the exercise on by one, and with the printed results of all pending steps the
exercise is finished.
-/
theorem checkText_reference
    (isGround : options.IsGround)
    (result : Term.read options text = .ok term)
    (typed : term.typeOf = .ok ty)
    (made : ofTerm term limit = .ok initial)
    (reached : initial.performAll requests = state)
    (installed : state.options = options)
    (allowed : symbols = .plain → options.letterBinders = true) :
    (state.isFinished = false →
      ∃ step after,
        state.steps[state.done]? = some step ∧
          state.checkText (step.result.text symbols) = .ok (.correct step.kind, after) ∧
          after.done = state.done + 1 ∧
          after.steps = state.steps) ∧
      (state.performAll
        (state.pending.map fun step => .checkText (step.result.text symbols))).isFinished =
          true := by
  constructor
  · intro unfinished
    cases pending : state.pending with
    | nil =>
        simp [isFinished, pending] at unfinished
    | cons next later =>
        refine ⟨next, state.advance 1, by simp [steps_getElem?_done, pending],
          checkText_result isGround result typed made reached installed allowed pending,
          ?_, steps_advance⟩
        have shape : state.pending = [] ++ next :: later := pending
        exact (advance_to shape).2
  · -- By induction on what is left to be done, the requests before it being any.
    generalize remaining : state.pending = left
    induction left generalizing state requests with
    | nil =>
        simp [performAll, isFinished, remaining]
    | cons next later inductionHypothesis =>
        have judged :=
          checkText_result isGround result typed made reached installed allowed remaining
        have performed :
            state.perform (.checkText (next.result.text symbols)) = state.advance 1 := by
          simp only [perform, judged]
        have reachedNext :
            initial.performAll (requests ++ [.checkText (next.result.text symbols)]) =
              state.advance 1 := by
          rw [performAll, List.foldl_append]
          change List.foldl perform (initial.performAll requests) _ = _
          rw [reached]
          exact performed
        have finished := inductionHypothesis reachedNext installed (by simp [advance, remaining])
        rw [List.map_cons, performAll, List.foldl_cons, performed]
        exact finished

end Reference

/--
In the exercise of reducing (λx.∃y.R(x,y) ∧ P(y))(y) ∧ (λx.P(x))(a) the plain text
of the renamed term is judged as the renaming.
-/
theorem checkText_reference_redexPair :
    ∃ initial after,
      Term.read .standard ((redexPair (quantifiedAtY "y") holdsAtA).text .logical) =
          .ok (redexPair (quantifiedAtY "y") holdsAtA) ∧
        ofTerm (redexPair (quantifiedAtY "y") holdsAtA) 3 = .ok initial ∧
        initial.options = .standard ∧
        initial.checkText ((redexPair (quantifiedAtY "y'") holdsAtA).text .plain) =
          .ok (.correct .alpha, after) ∧
        after.done = 1 ∧
        (initial.performAll
          (initial.pending.map fun step => .checkText (step.result.text .plain))).isFinished =
            true := by
  have readable : (redexPair (quantifiedAtY "y") holdsAtA).Readable .standard := by
    simp only [redexPair, quantifiedAtY, holdsAtA, holdsOf, related, Redex.toTerm,
      Redex.function, Term.Readable, Term.AllReadable, ReadingOptions.Admits]
    decide +kernel
  have result :
      Term.read .standard ((redexPair (quantifiedAtY "y") holdsAtA).text .logical) =
        .ok (redexPair (quantifiedAtY "y") holdsAtA) :=
    readable.read_text (fun isPlain => by cases isPlain)
  have isTyped := typed_redexPair typed_quantifiedAtY typed_holdsAtA
  have typed := (Term.typeOf_eq_ok_iff isTyped.monomorphic).mpr isTyped.hasType
  obtain ⟨later, derived⟩ := exists_derivation_redexPair
  have made := ofTerm_eq_ok_iff.mpr ⟨_, derived, rfl⟩
  have isGround : ReadingOptions.standard.IsGround := by
    decide
  have allowed : SymbolSet.plain = .plain → ReadingOptions.standard.letterBinders = true :=
    fun _ => rfl
  have unasked :
      performAll
          ⟨redexPair (quantifiedAtY "y") holdsAtA, [],
            ⟨.alpha, redexPair (quantifiedAtY "y'") holdsAtA⟩ :: later, .standard⟩ [] =
        ⟨redexPair (quantifiedAtY "y") holdsAtA, [],
          ⟨.alpha, redexPair (quantifiedAtY "y'") holdsAtA⟩ :: later, .standard⟩ := rfl
  obtain ⟨step, finished⟩ :=
    checkText_reference isGround result typed made unasked rfl allowed
  obtain ⟨_, after, isNext, judged, moved, _⟩ := step rfl
  cases isNext
  exact ⟨_, after, result, made, rfl, judged, moved, finished⟩

end Exercise

end TypedLambda
