import TypedLambda.Proofs.Exercise.ReferenceAnswers

namespace TypedLambda

/-!
# Answers that skip steps

An answer that comes too soon is told how many steps it leaves out. The search
for it begins after the next contraction and stops at the first step whose
result is the answer up to order. That step is a contraction: the result of a
renaming is that of the contraction before it up to names, and so the answer
would have been found there. Once the results of the steps left out have been
given one by one, the answer is therefore the right one for the step after them.
-/

open Term (Typed)

namespace Exercise

/-- No usual mistake is one of leaving out steps. -/
theorem mistake_ne_notSoFast
    (answer current : Term)
    (next : Step)
    (skipped : Nat) :
    mistake answer current next ≠ .notSoFast skipped := by
  unfold mistake
  split
  · simp
  · split
    · simp
    · split <;> simp

/-- Only a comparison in the search for later steps says that steps are left out. -/
theorem notSoFast_cases
    {exercise : Exercise}
    {answer : Term}
    {skipped : Nat}
    (judged : exercise.judge answer = .notSoFast skipped) :
    ∃ next later ty,
      exercise.pending = next :: later ∧
        answer.typeOf = .ok ty ∧
        accepted? answer next later = none ∧
        skipped? answer next later = some skipped := by
  cases pending : exercise.pending with
  | nil =>
      simp [judge, pending] at judged
  | cons next later =>
      cases typeFound : answer.typeOf with
      | error reason =>
          simp [judge, pending, typeFound] at judged
      | ok ty =>
          refine ⟨next, later, ty, rfl, rfl, ?_⟩
          cases accepted : accepted? answer next later with
          | some feedback =>
              obtain ⟨_, _, _, _, _, accepts⟩ := accepts_of_accepted? pending accepted
              simp only [judge, pending, typeFound, accepted] at judged
              rw [judged] at accepts
              cases accepts
          | none =>
              simp only [judge, pending, typeFound, accepted] at judged
              split at judged
              · cases judged
              · split at judged
                · next found =>
                    exact ⟨rfl, found.trans (congrArg some (Feedback.notSoFast.inj judged))⟩
                · exact (mistake_ne_notSoFast _ _ _ _ judged).elim

section Search

variable {p : Step → Bool} {edge : Step} {ahead : List Step} {index : Nat}

/-- The first step that passes stands behind one that does not, if the search starts there. -/
theorem exists_split_of_findIdx?
    (edgeFails : p edge = false)
    (found : ahead.findIdx? p = some index) :
    ∃ before previous target rest,
      edge :: ahead = before ++ previous :: target :: rest ∧
        before.length = index ∧
        p previous = false ∧
        p target = true := by
  induction ahead generalizing edge index with
  | nil =>
      simp at found
  | cons head tail inductionHypothesis =>
      rw [List.findIdx?_cons] at found
      cases headPasses : p head with
      | true =>
          simp only [headPasses, ↓reduceIte, Option.some.injEq] at found
          exact ⟨[], edge, head, tail, rfl, found, edgeFails, headPasses⟩
      | false =>
          simp only [headPasses, Bool.false_eq_true, ↓reduceIte, Option.map_eq_some_iff] at found
          obtain ⟨earlier, foundLater, rfl⟩ := found
          obtain ⟨before, previous, target, rest, shape, length, fails, passes⟩ :=
            inductionHypothesis headPasses foundLater
          exact ⟨edge :: before, previous, target, rest, by rw [shape]; rfl,
            congrArg (· + 1) length, fails, passes⟩

end Search

/-- The answer is the result of the step found, and not that of the step before it. -/
theorem exists_target_of_skipped?
    {answer : Term}
    {next : Step}
    {later : List Step}
    {skipped : Nat}
    (accepted : accepted? answer next later = none)
    (found : skipped? answer next later = some skipped) :
    ∃ before previous target rest,
      next :: later = before ++ previous :: target :: rest ∧
        skipped = before.length + 1 ∧
        answer.reorderEquivalent previous.result = false ∧
        answer.reorderEquivalent target.result = true := by
  have different
      {step : Step}
      (missed : Feedback.compare? answer step.result = none) :
      (Feedback.compare? answer step.result).isSome = false := by
    rw [missed]
    rfl
  unfold accepted? at accepted
  unfold skipped? stepsToBeta at found
  simp only [← Feedback.isSome_compare?]
  cases kind : next.kind with
  | beta =>
      simp only [kind, List.drop_succ_cons, List.drop_zero, Option.map_eq_some_iff]
        at accepted found
      obtain ⟨index, foundAhead, rfl⟩ := found
      obtain ⟨before, previous, target, rest, shape, rfl, fails, passes⟩ :=
        exists_split_of_findIdx? (different accepted) foundAhead
      exact ⟨before, previous, target, rest, shape, Nat.add_comm _ _, fails, passes⟩
  | alpha =>
      simp only [kind, List.drop_succ_cons, Option.map_eq_some_iff] at accepted found
      obtain ⟨index, foundAhead, rfl⟩ := found
      cases later with
      | nil =>
          simp at foundAhead
      | cons beta rest =>
          have missed : Feedback.compare? answer beta.result = none := by
            split at accepted
            · split at accepted <;> cases accepted
            · exact accepted
          obtain ⟨before, previous, target, rest, shape, rfl, fails, passes⟩ :=
            exists_split_of_findIdx? (different missed) foundAhead
          exact ⟨next :: before, previous, target, rest, congrArg (next :: ·) shape,
            by rw [List.length_cons]; omega, fails, passes⟩

section References

variable {exercise : Exercise} {count : Nat} {step : Step} {ty : Ty}

/-- The steps that are not done yet are the pending ones. -/
theorem drop_done_steps (exercise : Exercise) :
    exercise.steps.drop exercise.done = exercise.pending := by
  simp [steps, done]

theorem steps_getElem?_done_add (exercise : Exercise) (count : Nat) :
    exercise.steps[exercise.done + count]? = exercise.pending[count]? := by
  rw [← drop_done_steps, List.getElem?_drop]

/-- Moving on twice is moving on by the sum. -/
theorem advance_advance (exercise : Exercise) (first second : Nat) :
    (exercise.advance first).advance second = exercise.advance (first + second) := by
  simp [advance, List.take_add, List.drop_drop]

/-- As long as there are so many steps, so many are done. -/
theorem done_advance (enough : exercise.done + count ≤ exercise.steps.length) :
    (exercise.advance count).done = exercise.done + count := by
  have left : count ≤ exercise.pending.length := by
    simpa [done, steps] using enough
  simp [advance, done, Nat.min_eq_left left, Nat.add_comm]

/-- The next so many results, submitted one after the other. -/
def references (exercise : Exercise) (count : Nat) : List Request :=
  ((exercise.steps.drop exercise.done).take count).map fun step => .check step.result

/-- After some steps the result of the next one is the right answer for it. -/
theorem check_reference
    (consistent : exercise.Consistent)
    (typed : Typed .empty exercise.start ty)
    (isNext : exercise.steps[exercise.done + count]? = some step) :
    (exercise.advance count).check step.result =
      (.correct step.kind, exercise.advance (count + 1)) := by
  rw [steps_getElem?_done_add] at isNext
  have pending :
      (exercise.advance count).pending = step :: exercise.pending.drop (count + 1) :=
    List.drop_eq_getElem?_toList_append.trans (by simp [isNext])
  have moved := consistent.advance count
  have typedResult := (moved.typed typed).2 step (by simp [pending])
  rw [check_result pending (moved.step?_current pending) typedResult.typeOf_eq_ok,
    advance_advance]

/-- The next results, submitted one after the other, move the exercise on by as many steps. -/
theorem performAll_references
    (consistent : exercise.Consistent)
    (typed : Typed .empty exercise.start ty)
    (enough : exercise.done + count ≤ exercise.steps.length) :
    exercise.performAll (exercise.references count) = exercise.advance count := by
  induction count with
  | zero =>
      simp [references]
  | succ count inductionHypothesis =>
      obtain ⟨step, isNext⟩ : ∃ step, exercise.steps[exercise.done + count]? = some step :=
        ⟨_, List.getElem?_eq_getElem (by omega)⟩
      have split :
          exercise.references (count + 1) =
            exercise.references count ++ [.check step.result] := by
        simp [references, List.take_add_one, isNext]
      rw [split, performAll_append, inductionHypothesis (by omega)]
      exact congrArg Prod.snd (check_reference consistent typed isNext)

end References

/-- A step to the answer from a term that it is not alike is a contraction. -/
theorem kind_eq_beta_of_different
    {before answer : Term}
    {ty : Ty}
    {step : Step}
    (typed : Typed .empty before ty)
    (stepped : before.step? = .ok (some step))
    (different : answer.reorderEquivalent before = false)
    (same : answer.reorderEquivalent step.result = true) :
    step.kind = .beta := by
  cases kind : step.kind with
  | beta =>
      rfl
  | alpha =>
      have sameNameless := typed.nameless_eq_of_alpha stepped kind
      have sameKey : answer.reorderEquivalent step.result = answer.reorderEquivalent before := by
        simp only [Term.reorderEquivalent, Term.canonical_eq_named step.result,
          Term.canonical_eq_named before, sameNameless]
      simp [← sameKey, same] at different

/-- An answer that is the result of a contraction up to order is accepted as the contraction. -/
theorem judge_of_reorderEquivalent
    {exercise : Exercise}
    {answer : Term}
    {ty : Ty}
    {next : Step}
    {later : List Step}
    (pending : exercise.pending = next :: later)
    (beta : next.kind = .beta)
    (typeFound : answer.typeOf = .ok ty)
    (same : answer.reorderEquivalent next.result = true) :
    exercise.judge answer = .correct .beta ∨
      exercise.judge answer = .correctUpToOrder .beta := by
  rw [← Feedback.isSome_compare?] at same
  obtain ⟨feedback, compared⟩ := Option.isSome_iff_exists.mp same
  have judged : exercise.judge answer = feedback := by
    simp [judge, pending, typeFound, accepted?, beta, compared]
  rw [judged]
  exact (Feedback.accepts_of_compare? compared).2

/--
An answer is told the truth about the steps that it leaves out. Let the term of
the exercise have a type, no type variables and the types of binders at the
occurrences that they bind. If the answer comes so many steps too soon, there is
at least one of them, and after the results of exactly these steps, each of which
is accepted and completes its step only, the answer is accepted as a contraction.
-/
theorem check_notSoFast
    {term answer : Term}
    {ty : Ty}
    {limit skipped : Nat}
    {initial state : Exercise}
    {requests : List Request}
    (monomorphic : term.Monomorphic)
    (annotated : term.Annotated)
    (typeFound : term.typeOf = .ok ty)
    (made : ofTerm term limit = .ok initial)
    (reached : initial.performAll requests = state)
    (tooSoon : (state.check answer).1 = .notSoFast skipped) :
    1 ≤ skipped ∧
      (∀ count, count < skipped →
        ∃ step,
          state.steps[state.done + count]? = some step ∧
            (state.performAll (state.references count)).check step.result =
              (.correct step.kind, state.performAll (state.references (count + 1))) ∧
            (state.performAll (state.references (count + 1))).done = state.done + (count + 1)) ∧
      (((state.performAll (state.references skipped)).check answer).1 = .correct .beta ∨
        ((state.performAll (state.references skipped)).check answer).1 =
          .correctUpToOrder .beta) := by
  have consistent := consistent_of_reached made reached
  have typed : Typed .empty state.start ty := by
    rw [start_of_reached made reached]
    exact ⟨monomorphic, annotated, (Term.typeOf_eq_ok_iff monomorphic).mp typeFound⟩
  obtain ⟨next, later, answerType, pending, answerTyped, accepted, found⟩ :=
    notSoFast_cases tooSoon
  obtain ⟨before, previous, target, rest, shape, rfl, different, same⟩ :=
    exists_target_of_skipped? accepted found
  rw [← pending] at shape
  have inRange : state.done + (before.length + 1) ≤ state.steps.length := by
    simp [steps, done, shape]
  have advances {count : Nat} (atMost : count ≤ before.length + 1) :
      state.performAll (state.references count) = state.advance count :=
    performAll_references consistent typed (by omega)
  refine ⟨Nat.le_add_left _ _, fun count below => ?_, ?_⟩
  · obtain ⟨step, isNext⟩ : ∃ step, state.steps[state.done + count]? = some step :=
      ⟨_, List.getElem?_eq_getElem (by omega)⟩
    rw [advances (Nat.le_of_lt below), advances below]
    exact ⟨step, isNext, check_reference consistent typed isNext, done_advance (by omega)⟩
  · rw [advances (Nat.le_refl _)]
    have pendingAfter : (state.advance (before.length + 1)).pending = target :: rest := by
      simp [advance, shape]
    have moved := consistent.advance (before.length + 1)
    obtain ⟨isPrevious, _⟩ := advance_to shape
    obtain ⟨typedPrevious, _⟩ := moved.typed typed
    have stepped := moved.step?_current pendingAfter
    rw [isPrevious] at typedPrevious stepped
    have beta := kind_eq_beta_of_different typedPrevious stepped different same
    exact judge_of_reorderEquivalent pendingAfter beta answerTyped same

/--
In the exercise of reducing (λx.∃y.R(x,y) ∧ P(y))(y) ∧ (λx.P(x))(a) the final
term comes two steps too soon at first. After the results of the renaming and
the contraction that follows it, it is the right answer.
-/
theorem check_notSoFast_redexPair :
    ∃ initial,
      ofTerm (redexPair (quantifiedAtY "y") holdsAtA) 3 = .ok initial ∧
        (initial.check contractedPair).1 = .notSoFast 2 ∧
        (initial.performAll (initial.references 2)).done = 2 ∧
        (((initial.performAll (initial.references 2)).check contractedPair).1 =
            .correct .beta ∨
          ((initial.performAll (initial.references 2)).check contractedPair).1 =
            .correctUpToOrder .beta) := by
  have made := ofTerm_eq_ok_iff.mpr ⟨_, derivation_redexPair, rfl⟩
  have typed := typed_redexPair typed_quantifiedAtY typed_holdsAtA
  obtain ⟨_, typedResults⟩ := (consistent_of_reached made (performAll_nil _)).typed typed
  have answerTyped := (typedResults ⟨.beta, contractedPair⟩ (by simp)).typeOf_eq_ok
  have notRenamed :
      contractedPair.reorderEquivalent (redexPair (quantifiedAtY "y'") holdsAtA) = false := by
    decide +kernel
  have notContracted :
      contractedPair.reorderEquivalent (.connect .conjunction quantified holdsAtA.toTerm) =
        false := by
    decide +kernel
  have notCurrent :
      contractedPair.reorderEquivalent (redexPair (quantifiedAtY "y") holdsAtA) = false := by
    decide +kernel
  have same : contractedPair.reorderEquivalent contractedPair = true := by
    simp [Term.reorderEquivalent]
  refine ⟨_, made, ?_⟩
  have tooSoon :
      (check
          ⟨redexPair (quantifiedAtY "y") holdsAtA, [],
            [⟨.alpha, redexPair (quantifiedAtY "y'") holdsAtA⟩,
              ⟨.beta, .connect .conjunction quantified holdsAtA.toTerm⟩,
              ⟨.beta, contractedPair⟩], .standard⟩
          contractedPair).1 = .notSoFast 2 := by
    simp [check, judge, answerTyped, accepted?, notRenamed, Feedback.compare?_eq_none notContracted,
      current, notCurrent, skipped?, stepsToBeta, Feedback.isSome_compare?, same]
  obtain ⟨_, advances, accepted⟩ :=
    check_notSoFast typed.monomorphic typed.annotated typed.typeOf_eq_ok made
      (performAll_nil _) tooSoon
  obtain ⟨_, _, _, done⟩ := advances 1 (by decide)
  exact ⟨tooSoon, done, accepted⟩

end Exercise

end TypedLambda
