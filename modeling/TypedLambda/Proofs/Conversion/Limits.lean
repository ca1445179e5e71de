import TypedLambda.Proofs.Conversion.BoundNames

namespace TypedLambda.Term

/-!
# What a limit does to a derivation

From a term on, the steps are determined one by one, until there is no redex
left or a redex is refused. A limit does not change them: it decides only how
many may be done before a derivation is given up. One more step than that is
tried, so a term without redexes or a redex that is refused is still found out
when the limit has been reached.
-/

/-- A derivation fails after some steps, at a redex that is refused or beyond the limit. -/
theorem derivationWithin_eq_error_iff
    {limit remaining : Nat}
    {term : Term}
    {error : EvaluationError} :
    derivationWithin limit remaining term = .error error ↔
      ∃ (steps : List Step) (last : Term),
        Derives term steps last ∧
          (steps.length ≤ remaining ∧
              (∃ reason, last.step? = .error reason ∧ error = .illTyped reason) ∨
            steps.length = remaining + 1 ∧ error = .limitExceeded limit) := by
  constructor
  · intro failed
    induction remaining generalizing term with
    | zero =>
        rcases derivationWithin_error_cases failed with
          ⟨reason, refused, rfl⟩ | ⟨step, stepped, ⟨_, rfl⟩ | ⟨_, ⟨⟩, _⟩⟩
        · exact ⟨[], term, .done term, .inl ⟨Nat.le_refl _, reason, refused, rfl⟩⟩
        · exact ⟨[step], step.result, .step stepped (.done _), .inr ⟨rfl, rfl⟩⟩
    | succ remaining inductionHypothesis =>
        rcases derivationWithin_error_cases failed with
          ⟨reason, refused, rfl⟩ | ⟨step, stepped, ⟨⟨⟩, _⟩ | ⟨_, ⟨⟩, failedLater⟩⟩
        · exact ⟨[], term, .done term, .inl ⟨Nat.zero_le _, reason, refused, rfl⟩⟩
        · obtain ⟨steps, last, run, outcome⟩ := inductionHypothesis failedLater
          refine ⟨step :: steps, last, .step stepped run, ?_⟩
          simpa using outcome
  · rintro ⟨steps, last, run, outcome⟩
    induction run generalizing remaining with
    | done term =>
        rcases outcome with ⟨_, reason, refused, rfl⟩ | ⟨⟨⟩, _⟩
        unfold derivationWithin
        rw [refused]
    | @step term last step steps stepped run inductionHypothesis =>
        unfold derivationWithin
        rw [stepped]
        cases remaining with
        | zero =>
            -- Not even the first step is within the limit.
            rcases outcome with ⟨⟨⟩, _⟩ | ⟨_, rfl⟩
            rfl
        | succ remaining =>
            have failedLater :
                derivationWithin limit remaining step.result = .error error :=
              inductionHypothesis (by simpa using outcome)
            simp [failedLater]

/--
A limit only cuts a derivation off. It lists the steps to the first term
without redexes if there are no more of them than the limit; it exceeds the
limit exactly if one more step can be done; and it fails with a type error
exactly if the redex of a term within the limit is refused with that error.
Hence a result is without redexes, stays the result under every larger limit,
and is its own result under every limit.
-/
theorem derivation_cutOff (term : Term) (limit : Nat) :
    (∀ steps,
      term.derivation limit = .ok steps ↔
        steps.length ≤ limit ∧ ∃ last, Derives term steps last ∧ last.RedexFree) ∧
    (∀ exceeded,
      term.derivation limit = .error (.limitExceeded exceeded) ↔
        exceeded = limit ∧
          ∃ steps last, Derives term steps last ∧ steps.length = limit + 1) ∧
    (∀ reason,
      term.derivation limit = .error (.illTyped reason) ↔
        ∃ steps last,
          Derives term steps last ∧ steps.length ≤ limit ∧ last.step? = .error reason) ∧
    ∀ result,
      term.evaluate limit = .ok result →
        result.RedexFree ∧
          (∀ larger, limit ≤ larger → term.evaluate larger = .ok result) ∧
          ∀ other, result.evaluate other = .ok result := by
  refine ⟨fun steps => derivationWithin_eq_ok_iff, fun exceeded => ?_, fun reason => ?_, ?_⟩
  · rw [derivation, derivationWithin_eq_error_iff]
    constructor
    · rintro ⟨steps, last, run, ⟨_, _, _, ⟨⟩⟩ | ⟨length, ⟨⟩⟩⟩
      exact ⟨rfl, steps, last, run, length⟩
    · rintro ⟨rfl, steps, last, run, length⟩
      exact ⟨steps, last, run, .inr ⟨length, rfl⟩⟩
  · rw [derivation, derivationWithin_eq_error_iff]
    constructor
    · rintro ⟨steps, last, run, ⟨short, _, refused, ⟨⟩⟩ | ⟨_, ⟨⟩⟩⟩
      exact ⟨steps, last, run, short, refused⟩
    · rintro ⟨steps, last, run, short, refused⟩
      exact ⟨steps, last, run, .inl ⟨short, reason, refused, rfl⟩⟩
  · intro result evaluated
    obtain ⟨steps, short, run, free⟩ := evaluate_eq_ok_iff.mp evaluated
    refine ⟨free, fun larger enough => ?_, fun other => ?_⟩
    · exact evaluate_eq_ok_iff.mpr ⟨steps, Nat.le_trans short enough, run, free⟩
    · exact evaluate_eq_ok_iff.mpr ⟨[], Nat.zero_le _, .done result, free⟩

/-- A renaming and a contraction are too many for the limit 1, and enough for 2 and for 7. -/
theorem derivation_cutOff_relatedToAll :
    (relatedToAll "y").toTerm.derivation 1 = .error (.limitExceeded 1) ∧
      (relatedToAll "y").toTerm.evaluate 2 = .ok (allRelated "y'") ∧
      (relatedToAll "y").toTerm.evaluate 7 = .ok (allRelated "y'") ∧
      (allRelated "y'").evaluate 0 = .ok (allRelated "y'") := by
  have contracted :
      (relatedToAll "y'").toTerm.step? = .ok (some ⟨.beta, allRelated "y'"⟩) :=
    step?_relatedToAll (by decide) (by decide)
  have run :
      Derives (relatedToAll "y").toTerm
        [⟨.alpha, (relatedToAll "y'").toTerm⟩, ⟨.beta, allRelated "y'"⟩] (allRelated "y'") :=
    .step step?_relatedToAll_captured (.step contracted (.done _))
  have free : (allRelated "y'").RedexFree :=
    step?_eq_ok_none_iff.mp rfl
  have evaluated : (relatedToAll "y").toTerm.evaluate 2 = .ok (allRelated "y'") :=
    evaluate_eq_ok_iff.mpr ⟨_, by decide, run, free⟩
  obtain ⟨_, exceeds, _⟩ := derivation_cutOff (relatedToAll "y").toTerm 1
  obtain ⟨_, _, _, results⟩ := derivation_cutOff (relatedToAll "y").toTerm 2
  obtain ⟨_, larger, again⟩ := results _ evaluated
  exact ⟨(exceeds 1).mpr ⟨rfl, _, _, run, rfl⟩, evaluated, larger 7 (by decide), again 0⟩

end TypedLambda.Term
