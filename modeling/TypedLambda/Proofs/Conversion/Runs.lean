import TypedLambda.Proofs.Conversion.StepCases

namespace TypedLambda.Term

/-!
# Derivations as runs

A derivation lists steps that follow one another until no redex is left. The
limit decides only whether there is an answer: if there is one it is the same
for every limit that is large enough.
-/

/-- Steps that follow one another, with the term that they start from and the one they end at. -/
inductive Derives : Term → List Step → Term → Prop where
  /-- Without any step the term stays as it is. -/
  | done (term : Term) : Derives term [] term
  /-- The first step is the one that the term allows, and the others follow it. -/
  | step
      {term last : Term}
      {step : Step}
      {steps : List Step}
      (stepped : term.step? = .ok (some step))
      (rest : Derives step.result steps last) :
      Derives term (step :: steps) last

/-- There is no next step exactly in the terms without redexes. -/
theorem step?_eq_ok_none_iff {term : Term} :
    term.step? = .ok none ↔ term.RedexFree := by
  rw [← leftmostRedex?_eq_none_iff, step?]
  cases found : term.leftmostRedex? with
  | none =>
      simp
  | some place =>
      simp

/-- The steps of a run determine where it ends. -/
theorem Derives.last_eq
    {term last : Term}
    {steps : List Step}
    (run : Derives term steps last) :
    (steps.getLast?.map Step.result).getD term = last := by
  induction run with
  | done term =>
      rfl
  | @step term last step steps _ _ inductionHypothesis =>
      cases steps with
      | nil =>
          exact inductionHypothesis
      | cons next later =>
          simpa [List.getLast?_cons] using inductionHypothesis

/-- A run comes by a place between any two of its steps. -/
theorem Derives.exists_between
    {term last : Term}
    {earlier later : List Step}
    (run : Derives term (earlier ++ later) last) :
    ∃ between, Derives term earlier between ∧ Derives between later last := by
  induction earlier generalizing term with
  | nil =>
      exact ⟨term, .done term, run⟩
  | cons step earlier inductionHypothesis =>
      cases run with
      | step stepped rest =>
          obtain ⟨between, toBetween, fromBetween⟩ := inductionHypothesis rest
          exact ⟨between, .step stepped toBetween, fromBetween⟩

/-- What every step keeps holds of each result in a run. -/
theorem Derives.forall_result
    (holds : Term → Prop)
    (kept :
      ∀ (term : Term) (step : Step),
        holds term → term.step? = .ok (some step) → holds step.result)
    {term last : Term}
    {steps : List Step}
    (run : Derives term steps last)
    (initially : holds term) :
    holds last ∧ ∀ step ∈ steps, holds step.result := by
  induction run with
  | done term =>
      exact ⟨initially, by simp⟩
  | step stepped _ inductionHypothesis =>
      have next := kept _ _ initially stepped
      obtain ⟨atEnd, later⟩ := inductionHypothesis next
      exact ⟨atEnd, List.forall_mem_cons.mpr ⟨next, later⟩⟩

/-- A derivation succeeds at a term without redexes, or with a step and what follows it. -/
theorem derivationWithin_ok_cases
    {limit remaining : Nat}
    {term : Term}
    {steps : List Step}
    (derived : derivationWithin limit remaining term = .ok steps) :
    (term.RedexFree ∧ steps = []) ∨
      ∃ step later fewer,
        term.step? = .ok (some step) ∧ steps = step :: later ∧
          remaining = fewer + 1 ∧
          derivationWithin limit fewer step.result = .ok later := by
  unfold derivationWithin at derived
  cases stepped : term.step? with
  | error reason =>
      simp [stepped] at derived
  | ok outcome =>
      cases outcome with
      | none =>
          simp only [stepped, Except.ok.injEq] at derived
          exact .inl ⟨step?_eq_ok_none_iff.mp stepped, derived.symm⟩
      | some step =>
          cases remaining with
          | zero =>
              simp [stepped] at derived
          | succ fewer =>
              simp only [stepped, Outcome.bind_eq_ok_iff, Outcome.pure_eq_ok_iff] at derived
              obtain ⟨later, derivedLater, rfl⟩ := derived
              exact .inr ⟨step, later, fewer, rfl, rfl, rfl, derivedLater⟩

/-- A derivation succeeds with the steps of a run that is short enough and leaves no redex. -/
theorem derivationWithin_eq_ok_iff
    {limit remaining : Nat}
    {term : Term}
    {steps : List Step} :
    derivationWithin limit remaining term = .ok steps ↔
      steps.length ≤ remaining ∧ ∃ last, Derives term steps last ∧ last.RedexFree := by
  constructor
  · intro derived
    induction steps generalizing remaining term with
    | nil =>
        rcases derivationWithin_ok_cases derived with ⟨free, _⟩ | ⟨_, _, _, _, ⟨⟩, _⟩
        exact ⟨Nat.zero_le _, term, .done term, free⟩
    | cons step steps inductionHypothesis =>
        rcases derivationWithin_ok_cases derived with
          ⟨_, ⟨⟩⟩ | ⟨_, _, fewer, stepped, ⟨⟩, rfl, derivedLater⟩
        obtain ⟨short, last, run, free⟩ := inductionHypothesis derivedLater
        exact ⟨Nat.succ_le_succ short, last, .step stepped run, free⟩
  · rintro ⟨short, last, run, free⟩
    induction run generalizing remaining with
    | done term =>
        unfold derivationWithin
        simp [step?_eq_ok_none_iff.mpr free]
    | @step term last step steps stepped _ inductionHypothesis =>
        cases remaining with
        | zero =>
            simp at short
        | succ remaining =>
            have derivedLater := inductionHypothesis (Nat.le_of_succ_le_succ short) free
            unfold derivationWithin
            simp [stepped, derivedLater]

/-- Evaluation succeeds with the end of a run that is short enough and leaves no redex. -/
theorem evaluate_eq_ok_iff
    {term result : Term}
    {limit : Nat} :
    term.evaluate limit = .ok result ↔
      ∃ steps : List Step,
        steps.length ≤ limit ∧ Derives term steps result ∧ result.RedexFree := by
  simp only [evaluate, derivation, Outcome.bind_eq_ok_iff, Outcome.pure_eq_ok_iff,
    derivationWithin_eq_ok_iff]
  constructor
  · rintro ⟨steps, ⟨short, last, run, free⟩, rfl⟩
    rw [run.last_eq]
    exact ⟨steps, short, run, free⟩
  · rintro ⟨steps, short, run, free⟩
    exact ⟨steps, ⟨short, result, run, free⟩, run.last_eq⟩

end TypedLambda.Term
