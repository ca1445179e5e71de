import TypedLambda.Exercise.Session
import TypedLambda.Proofs.Ty.Ground

namespace TypedLambda

/-!
# Progress in an exercise

Where a student has got to is told by the number of steps done. A correct
answer moves on by one step or by two, namely up to the step whose result the
answer is, so the place never runs past the last step and the current term is
always the one that the student has written. Whatever else is asked of an
exercise leaves the place where it is.
-/

/-- Terms that differ in the names of bound variables only are alike up to order as well. -/
theorem Term.reorderEquivalent_of_alphaEquivalent
    {left right : Term}
    (equivalent : left.alphaEquivalent right = true) :
    left.reorderEquivalent right = true := by
  have sameForm : left.canonical = right.canonical := of_decide_eq_true equivalent
  simp [reorderEquivalent, sameForm]

namespace Feedback

/-- The answer is accepted because it is the expected term, in the sense that the feedback says. -/
inductive Accepts (answer expected : Term) : Feedback → Prop where
  | correct (kind : StepKind) :
      answer.alphaEquivalent expected = true → Accepts answer expected (.correct kind)
  | correctUpToOrder (kind : StepKind) :
      answer.reorderEquivalent expected = true →
        Accepts answer expected (.correctUpToOrder kind)

/-- Feedback by which an answer is accepted is correct. -/
theorem Accepts.isCorrect
    {answer expected : Term}
    {feedback : Feedback}
    (accepts : Accepts answer expected feedback) :
    feedback.isCorrect = true := by
  cases accepts <;> rfl

/-- A comparison that succeeds says how the answer is the same as the expected term. -/
theorem accepts_of_compare?
    {answer expected : Term}
    {feedback : Feedback}
    (compared : compare? answer expected = some feedback) :
    Accepts answer expected feedback ∧
      (feedback = .correct .beta ∨ feedback = .correctUpToOrder .beta) := by
  unfold compare? at compared
  split at compared
  · next same =>
      cases compared
      exact ⟨.correct .beta same, .inl rfl⟩
  · split at compared
    · next same =>
        cases compared
        exact ⟨.correctUpToOrder .beta same, .inr rfl⟩
    · cases compared

/-- A comparison succeeds exactly if the answer is the expected term up to order. -/
theorem isSome_compare? (answer expected : Term) :
    (compare? answer expected).isSome = answer.reorderEquivalent expected := by
  have included := @Term.reorderEquivalent_of_alphaEquivalent answer expected
  unfold compare?
  grind

/-- A comparison fails if the answer is not the expected term, not even up to order. -/
theorem compare?_eq_none
    {answer expected : Term}
    (different : answer.reorderEquivalent expected = false) :
    compare? answer expected = none := by
  simp [← Option.not_isSome_iff_eq_none, isSome_compare?, different]

end Feedback

namespace Exercise

/-- The number of steps done. -/
def done (exercise : Exercise) : Nat :=
  exercise.completed.length

/-- No more steps are done than there are. -/
theorem done_le_length_steps (exercise : Exercise) :
    exercise.done ≤ exercise.steps.length := by
  simp [done, steps]

/-- The next step is the one at the place. -/
theorem steps_getElem?_done (exercise : Exercise) :
    exercise.steps[exercise.done]? = exercise.pending.head? := by
  simp [done, steps, List.getElem?_append, List.head?_eq_getElem?]

/-- An exercise is finished when all steps are done. -/
theorem isFinished_iff {exercise : Exercise} :
    exercise.isFinished = true ↔ exercise.done = exercise.steps.length := by
  simp [isFinished, done, steps]

/-- The current term stands at the place in the derivation. -/
theorem getElem?_done_eq_current (exercise : Exercise) :
    (exercise.start :: exercise.steps.map Step.result)[exercise.done]? =
      some exercise.current := by
  cases shape : exercise.completed with
  | nil =>
      simp [done, current, shape]
  | cons step earlier =>
      simp [done, current, steps, shape]

section advance

variable {exercise : Exercise} {count : Nat}

@[simp] theorem advance_zero : exercise.advance 0 = exercise := by
  simp [advance]

@[simp] theorem steps_advance : (exercise.advance count).steps = exercise.steps := by
  simp [advance, steps]

/-- After moving on up to a step the current term is its result. -/
theorem advance_to
    {passed later : List Step}
    {target : Step}
    (shape : exercise.pending = passed ++ target :: later) :
    (exercise.advance (passed.length + 1)).current = target.result ∧
      (exercise.advance (passed.length + 1)).done = exercise.done + (passed.length + 1) := by
  have taken : exercise.pending.take (passed.length + 1) = passed ++ [target] := by
    simp [shape, List.take_length_add_append]
  constructor
  · simp [advance, current, taken]
  · simp only [advance, done, taken, List.length_append, List.length_reverse,
      List.length_singleton]
    omega

end advance

/-- A right answer is the result of the pending step that the exercise moves on to. -/
theorem accepts_of_accepted?
    {exercise : Exercise}
    {answer : Term}
    {next : Step}
    {later : List Step}
    {feedback : Feedback}
    (shape : exercise.pending = next :: later)
    (accepted : accepted? answer next later = some feedback) :
    ∃ passed target rest,
      exercise.pending = passed ++ target :: rest ∧
        exercise.progress feedback = passed.length + 1 ∧
        feedback.Accepts answer target.result := by
  unfold accepted? at accepted
  split at accepted
  · next isBeta =>
      obtain ⟨accepts, rfl | rfl⟩ := Feedback.accepts_of_compare? accepted <;>
        exact ⟨[], next, later, shape, by simp [progress, shape, stepsToBeta, isBeta], accepts⟩
  · next isAlpha =>
      split at accepted
      · next both =>
          simp only [Bool.and_eq_true] at both
          split at accepted
          · next same =>
              cases accepted
              exact ⟨[], next, later, shape, rfl, .correct .alpha same⟩
          · cases accepted
            exact ⟨[], next, later, shape, rfl, .correctUpToOrder .alpha both.1⟩
      · -- The renaming has been passed over, so the exercise moves on by two steps.
        cases later with
        | nil =>
            cases accepted
        | cons beta rest =>
            obtain ⟨accepts, rfl | rfl⟩ := Feedback.accepts_of_compare? accepted <;>
              exact ⟨[next], beta, rest, shape,
                by simp [progress, shape, stepsToBeta, isAlpha], accepts⟩

/-- An answer is not accepted for a usual mistake, and it does not come too late either. -/
theorem mistake_rejects
    (answer current : Term)
    (next : Step) :
    (mistake answer current next).isCorrect = false ∧
      mistake answer current next ≠ .finished := by
  unfold mistake
  split
  · simp [Feedback.isCorrect]
  · split
    · simp [Feedback.isCorrect]
    · split <;> simp [Feedback.isCorrect]

/-- How an answer can be judged: nothing is left to do, or it is right, or it is wrong. -/
theorem judge_cases (exercise : Exercise) (answer : Term) :
    (exercise.pending = [] ∧ exercise.judge answer = .finished) ∨
      (∃ passed target rest,
        exercise.pending = passed ++ target :: rest ∧
          exercise.progress (exercise.judge answer) = passed.length + 1 ∧
          (exercise.judge answer).Accepts answer target.result) ∨
      (exercise.pending ≠ [] ∧ (exercise.judge answer).isCorrect = false ∧
        exercise.judge answer ≠ .finished) := by
  unfold judge
  cases shape : exercise.pending with
  | nil =>
      exact .inl ⟨rfl, rfl⟩
  | cons next later =>
      refine .inr ?_
      simp only [← shape]
      cases typed : answer.typeOf with
      | error reason =>
          exact .inr ⟨by simp [shape], rfl, by simp⟩
      | ok ty =>
          cases accepted : accepted? answer next later with
          | some feedback =>
              exact .inl (accepts_of_accepted? shape accepted)
          | none =>
              refine .inr ⟨by simp [shape], ?_⟩
              simp only
              split
              · simp [Feedback.isCorrect]
              · split
                · simp [Feedback.isCorrect]
                · exact mistake_rejects answer exercise.current next

/-- What a judgement on an answer comes to, the exercise being given before and afterwards. -/
structure Judged
    (before : Exercise)
    (answer : Term)
    (feedback : Feedback)
    (after : Exercise) : Prop where
  finished_iff : feedback = .finished ↔ before.isFinished = true
  sameStart : after.start = before.start
  sameSteps : after.steps = before.steps
  /-- Nothing changes unless the answer is accepted. -/
  rejected : feedback.isCorrect = false → after = before
  moves : after.done = before.done + before.progress feedback
  /-- There is a step to be done if an answer is accepted, and no step beyond the last is. -/
  accepted :
    feedback.isCorrect = true →
      before.done < after.done ∧ after.done ≤ before.steps.length
  correct :
    ∀ kind, feedback = .correct kind →
      answer.alphaEquivalent after.current = true
  correctUpToOrder :
    ∀ kind, feedback = .correctUpToOrder kind →
      answer.reorderEquivalent after.current = true

/-- Every answer is judged in this way, wherever the exercise has got to. -/
theorem check_judged (exercise : Exercise) (answer : Term) :
    Judged exercise answer (exercise.check answer).1 (exercise.check answer).2 := by
  simp only [check]
  rcases judge_cases exercise answer with
    ⟨nothingLeft, finished⟩ | ⟨passed, target, rest, shape, moves, accepts⟩ |
      ⟨stepsLeft, wrong, notFinished⟩
  · rw [finished]
    exact {
      finished_iff := by simp [isFinished, nothingLeft]
      sameStart := rfl
      sameSteps := steps_advance
      rejected := fun _ => advance_zero
      moves := rfl
      accepted := fun isCorrect => by cases isCorrect
      correct := fun _ same => by cases same
      correctUpToOrder := fun _ same => by cases same }
  · generalize exercise.judge answer = feedback at moves accepts
    obtain ⟨atTarget, movesTo⟩ := advance_to shape
    rw [← moves] at atTarget movesTo
    have inRange := (exercise.advance (exercise.progress feedback)).done_le_length_steps
    rw [steps_advance] at inRange
    exact {
      finished_iff := by
        cases accepts <;> simp [isFinished, shape]
      sameStart := rfl
      sameSteps := steps_advance
      rejected := fun wrong => by simp [accepts.isCorrect] at wrong
      moves := movesTo
      accepted := fun _ => ⟨by omega, inRange⟩
      correct := fun kind same => by
        subst same
        cases accepts with
        | correct _ same =>
            rw [atTarget]
            exact same
      correctUpToOrder := fun kind same => by
        subst same
        cases accepts with
        | correctUpToOrder _ same =>
            rw [atTarget]
            exact same }
  · have stays : exercise.progress (exercise.judge answer) = 0 := by
      generalize exercise.judge answer = feedback at wrong
      cases feedback <;> simp_all [Feedback.isCorrect, progress]
    rw [stays, advance_zero]
    exact {
      finished_iff := by simp [isFinished, notFinished, stepsLeft]
      sameStart := rfl
      sameSteps := rfl
      rejected := fun _ => rfl
      moves := by rw [stays, Nat.add_zero]
      accepted := fun isCorrect => by simp [wrong] at isCorrect
      correct := fun kind same => by simp [same, Feedback.isCorrect] at wrong
      correctUpToOrder := fun kind same => by simp [same, Feedback.isCorrect] at wrong }

/-- What can be asked of an exercise. -/
inductive Request where
  | check (answer : Term)
  | checkText (text : String)
  | withOptions (options : ReadingOptions)

/-- The exercise after a request. A text that cannot be read is not judged. -/
def perform (exercise : Exercise) : Request → Exercise
  | .check answer => (exercise.check answer).2
  | .checkText text =>
      match exercise.checkText text with
      | .ok (_, after) => after
      | .error _ => exercise
  | .withOptions options => exercise.withOptions options

/-- The exercise after some requests, one after the other. -/
def performAll (exercise : Exercise) (requests : List Request) : Exercise :=
  requests.foldl perform exercise

@[simp] theorem performAll_nil (exercise : Exercise) : exercise.performAll [] = exercise :=
  rfl

/-- Requests are performed one after the other. -/
theorem performAll_append (exercise : Exercise) (earlier later : List Request) :
    exercise.performAll (earlier ++ later) = (exercise.performAll earlier).performAll later :=
  List.foldl_append

/-- A text is judged as the term that it is read as, or else it is refused. -/
theorem checkText_cases (exercise : Exercise) (text : String) :
    (∃ answer,
        Term.read exercise.options text = .ok answer ∧
          exercise.checkText text = .ok (exercise.check answer) ∧
          exercise.perform (.checkText text) = (exercise.check answer).2) ∨
      ∃ reason,
        exercise.checkText text = .error reason ∧
          exercise.perform (.checkText text) = exercise := by
  cases reading : Term.read exercise.options text with
  | ok answer =>
      have judged : exercise.checkText text = .ok (exercise.check answer) := by
        rw [checkText, reading]
        rfl
      exact .inl ⟨answer, rfl, judged, by simp only [perform, judged]⟩
  | error reason =>
      have refused : exercise.checkText text = .error reason := by
        rw [checkText, reading]
        rfl
      exact .inr ⟨reason, refused, by simp only [perform, refused]⟩

/-- The same derivation, with no step taken back. -/
structure Continues (before after : Exercise) : Prop where
  sameStart : after.start = before.start
  sameSteps : after.steps = before.steps
  done_le : before.done ≤ after.done

/-- A judgement never takes a step back. -/
theorem Judged.continues
    {before after : Exercise}
    {answer : Term}
    {feedback : Feedback}
    (judged : Judged before answer feedback after) :
    Continues before after where
  sameStart := judged.sameStart
  sameSteps := judged.sameSteps
  done_le := by
    cases isCorrect : feedback.isCorrect with
    | true =>
        exact Nat.le_of_lt (judged.accepted isCorrect).1
    | false =>
        exact Nat.le_of_eq (congrArg done (judged.rejected isCorrect).symm)

/-- No request takes a step back. -/
theorem perform_continues (exercise : Exercise) (request : Request) :
    Continues exercise (exercise.perform request) := by
  cases request with
  | check answer =>
      exact (exercise.check_judged answer).continues
  | checkText text =>
      rcases exercise.checkText_cases text with
        ⟨answer, _, _, performed⟩ | ⟨_, _, performed⟩
      · rw [performed]
        exact (exercise.check_judged answer).continues
      · rw [performed]
        exact ⟨rfl, rfl, Nat.le_refl _⟩
  | withOptions options =>
      exact ⟨rfl, rfl, Nat.le_refl _⟩

/-- No sequence of requests takes a step back. -/
theorem performAll_continues (exercise : Exercise) (requests : List Request) :
    Continues exercise (exercise.performAll requests) := by
  induction requests generalizing exercise with
  | nil =>
      exact ⟨rfl, rfl, Nat.le_refl _⟩
  | cons request rest inductionHypothesis =>
      have first := exercise.perform_continues request
      have others := inductionHypothesis (exercise.perform request)
      exact {
        sameStart := others.sameStart.trans first.sameStart
        sameSteps := others.sameSteps.trans first.sameSteps
        done_le := Nat.le_trans first.done_le others.done_le }

/-- A new exercise has the derivation of its term before it. -/
theorem ofTerm_eq_ok_iff
    {term : Term}
    {limit : Nat}
    {exercise : Exercise} :
    ofTerm term limit = .ok exercise ↔
      ∃ steps, term.derivation limit = .ok steps ∧
        ⟨term, [], steps, .standard⟩ = exercise := by
  simp [ofTerm]

/--
The state of an exercise is a place in the derivation of its term, whatever
has been asked of it. The place is not beyond the last step, no request takes
it back, and the current term is the one that stands there. An answer is
judged to come too late exactly if all steps are done; it moves the place only
if it is accepted, and then the new current term is the answer, in the sense
that the feedback says. A text that cannot be read moves nothing.
-/
theorem performAll_keepsPlace
    {term : Term}
    {limit : Nat}
    {initial state : Exercise}
    {requests : List Request}
    (made : ofTerm term limit = .ok initial)
    (reached : initial.performAll requests = state) :
    (state.start = term ∧ term.derivation limit = .ok state.steps) ∧
      (state.done ≤ state.steps.length ∧
        (state.isFinished = true ↔ state.done = state.steps.length) ∧
        state.steps[state.done]? = state.pending.head? ∧
        (term :: state.steps.map Step.result)[state.done]? = some state.current) ∧
      (∀ request, Continues state (state.perform request)) ∧
      (∀ answer, Judged state answer (state.check answer).1 (state.check answer).2) ∧
      ∀ text,
        (∃ answer,
            Term.read state.options text = .ok answer ∧
              state.checkText text = .ok (state.check answer) ∧
              state.perform (.checkText text) = (state.check answer).2) ∨
          ∃ reason,
            state.checkText text = .error reason ∧
              state.perform (.checkText text) = state := by
  obtain ⟨steps, derived, rfl⟩ := ofTerm_eq_ok_iff.mp made
  have run := performAll_continues ⟨term, [], steps, .standard⟩ requests
  rw [reached] at run
  have sameStart : state.start = term := run.sameStart
  have sameSteps : state.steps = steps := run.sameSteps
  have current := state.getElem?_done_eq_current
  rw [sameStart] at current
  exact ⟨⟨sameStart, by rw [sameSteps, derived]⟩,
    ⟨state.done_le_length_steps, isFinished_iff, state.steps_getElem?_done, current⟩,
    state.perform_continues, state.check_judged, state.checkText_cases⟩

/-- The relation R between a variable of the first name and one of the second. -/
def related (first second : String) : Term :=
  .app (.const ⟨"R", .predicate (.prod [.entity, .entity])⟩)
    (.tuple [.var ⟨first, .entity⟩, .var ⟨second, .entity⟩])

/-- The application of λx.λu.R(x,u) to y, with the given name for u. -/
def relationAtY (inner : String) : Term :=
  .app
    (.bind .lambda ⟨"x", .entity⟩ (.bind .lambda ⟨inner, .entity⟩ (related "x" inner)))
    (.var ⟨"y", .entity⟩)

/-- What it is converted into if the inner binder does not capture y. -/
def relatedToY (inner : String) : Term :=
  .bind .lambda ⟨inner, .entity⟩ (related "y" inner)

/--
In the exercise of reducing (λx.λy.R(x,y))(y) the answer λz.R(y,z) leaves out
the renaming, which moves on by two steps and finishes the exercise.
-/
theorem performAll_keepsPlace_renamingLeftOut :
    ∃ initial state,
      ofTerm (relationAtY "y") 2 = .ok initial ∧
        initial.performAll [.withOptions .standard, .check (relatedToY "z")] = state ∧
        state.done = 2 ∧
        state.current = relatedToY "y'" ∧
        ∀ answer, (state.check answer).1 = .finished := by
  have fresh : Term.freshName ["x", "y", "R", "x", "y", "y"] "y" = "y'" := by
    simp [Term.freshName]
  have renamed : (relationAtY "y").step? = .ok (some ⟨.alpha, relationAtY "y'"⟩) := by
    simp [relationAtY, related, Term.step?, Term.leftmostRedex?, Term.redex?,
      Redex.contract, Redex.function, Term.typeOf, Term.typesOf, Ty.applyTo_domain,
      Ty.predicate, Ty.entity, Ty.truth, Redex.apartArgument, Term.instantiate,
      Identifier.instantiate, Ty.Substitution.apply, Redex.renamedBody,
      Term.avoidCapture, Term.avoidCaptureInAll, Term.hasFree, Term.anyHasFree,
      Redex.usedNames, Term.nameOccurrences, Term.nameOccurrencesInAll, fresh,
      Term.substitute, Term.substituteAll, Contraction.kind, PlacedRedex.replace]
  have contracted : (relationAtY "y'").step? = .ok (some ⟨.beta, relatedToY "y'"⟩) := by
    simp [relationAtY, related, relatedToY, Term.step?, Term.leftmostRedex?, Term.redex?,
      Redex.contract, Redex.function, Term.typeOf, Term.typesOf, Ty.applyTo_domain,
      Ty.predicate, Ty.entity, Ty.truth, Redex.apartArgument, Term.instantiate,
      Term.instantiateAll, Identifier.instantiate, Ty.Substitution.apply,
      Ty.Substitution.applyAll, Redex.renamedBody, Term.avoidCapture,
      Term.avoidCaptureInAll, Term.hasFree, Term.anyHasFree, Term.substitute,
      Term.substituteAll, Contraction.kind, PlacedRedex.replace]
  have noStep : (relatedToY "y'").step? = .ok none := by
    simp [relatedToY, related, Term.step?, Term.leftmostRedex?, Term.leftmostRedexAmong?,
      Term.redex?]
  have derived :
      (relationAtY "y").derivation 2 =
        .ok [⟨.alpha, relationAtY "y'"⟩, ⟨.beta, relatedToY "y'"⟩] := by
    simp [Term.derivation, Term.derivationWithin, renamed, contracted, noStep]
  have made := ofTerm_eq_ok_iff.mpr ⟨_, derived, rfl⟩
  have typed : (relatedToY "z").typeOf = .ok (.predicate .entity) := by
    simp [relatedToY, related, Term.typeOf, Term.typesOf, Ty.applyTo_domain,
      Ty.predicate, Ty.entity]
  have notRenamed : (relatedToY "z").reorderEquivalent (relationAtY "y'") = false := by
    decide +kernel
  have same : (relatedToY "z").alphaEquivalent (relatedToY "y'") = true := by
    decide +kernel
  have reached :
      performAll
          ⟨relationAtY "y", [],
            [⟨.alpha, relationAtY "y'"⟩, ⟨.beta, relatedToY "y'"⟩], .standard⟩
          [.withOptions .standard, .check (relatedToY "z")] =
        ⟨relationAtY "y",
          [⟨.beta, relatedToY "y'"⟩, ⟨.alpha, relationAtY "y'"⟩], [], .standard⟩ := by
    simp [performAll, perform, withOptions, check, judge, typed, accepted?, notRenamed,
      Feedback.compare?, same, progress, stepsToBeta, advance]
  obtain ⟨_, _, _, judged, _⟩ := performAll_keepsPlace made reached
  exact ⟨_, _, made, reached, rfl, rfl, fun answer => (judged answer).finished_iff.mpr rfl⟩

end Exercise

end TypedLambda
