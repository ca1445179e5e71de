import TypedLambda.Proofs.Conversion.FreeNames
import TypedLambda.Proofs.Nameless.Leftmost
import TypedLambda.Proofs.Typing.TypedStep

namespace TypedLambda.Term

/-!
# Results and bound names

How bound variables are called decides where a derivation has to rename, so
the derivations of two terms that differ in bound names may get out of step.
But renamings leave the nameless term alone, and every other step makes the
leftmost contraction of it. So both derivations make the same contractions, and
their results differ in bound names only.
-/

/--
The term has no type variables, every occurrence of a bound variable carries
the type of its binder, and no free variable is called like a canonical one.
-/
structure Regular (term : Term) : Prop where
  monomorphic : term.Monomorphic
  annotated : term.Annotated
  unmarked : term.Unmarked

/-- A term that differs from a regular one in the names of bound variables only is regular. -/
theorem Regular.of_nameless_eq
    {left right : Term}
    (regular : left.Regular)
    (unmarked : right.Unmarked)
    (same : left.nameless = right.nameless) :
    right.Regular := by
  have equivalent := alphaEq_iff_nameless_eq.mpr same
  exact ⟨equivalent.monomorphic_iff.mp regular.monomorphic,
    (equivalent.annotatedIn_iff .empty).mp regular.annotated, unmarked⟩

/-- A step of a regular term leads to a regular term. -/
theorem Regular.step
    {term : Term}
    (regular : term.Regular)
    {step : Step}
    (stepped : term.step? = .ok (some step)) :
    step.result.Regular := by
  obtain ⟨monomorphic, annotated⟩ := regular.monomorphic.step regular.annotated stepped
  exact ⟨monomorphic, annotated, regular.unmarked.of_freeIn (freeIn_step stepped)⟩

/-- What a step of a regular term does to the nameless term. -/
theorem Regular.nameless_step
    {term : Term}
    (regular : term.Regular)
    {step : Step}
    (stepped : term.step? = .ok (some step)) :
    (step.kind = .alpha ∧ step.result.nameless = term.nameless) ∨
      (step.kind = .beta ∧ term.nameless.contractLeftmost? = some step.result.nameless) := by
  obtain ⟨place, found, ⟨_, kind, _, equivalent⟩ | ⟨safe, kind, result, _⟩⟩ :=
    regular.monomorphic.step_cases regular.annotated stepped
  · exact .inl ⟨kind, (alphaEq_iff_nameless_eq.mp equivalent).symm⟩
  · have contracted := term.contractsAlike [] fun other isOther => by
      rw [found, Option.some.injEq] at isOther
      exact isOther ▸ safe
    rw [found] at contracted
    refine .inr ⟨kind, ?_⟩
    rw [result]
    exact contracted

/-- A run makes one leftmost contraction of the nameless term for each step that is no renaming. -/
theorem Derives.leftmostRun
    {term last : Term}
    {steps : List Step}
    (run : Derives term steps last)
    (regular : term.Regular) :
    Nameless.LeftmostRun (steps.countP fun step => step.kind = .beta)
      term.nameless last.nameless := by
  induction run with
  | done term =>
      exact .done term.nameless
  | step stepped _ inductionHypothesis =>
      have later := inductionHypothesis (regular.step stepped)
      rcases regular.nameless_step stepped with ⟨alpha, same⟩ | ⟨beta, contracted⟩
      · rw [same] at later
        simpa [List.countP_cons, alpha] using later
      · simpa [List.countP_cons, beta] using Nameless.LeftmostRun.contract contracted later

/--
Results do not depend on bound names. If two terms differ in the names of bound
variables only, and both are reduced to the end, within whatever limits, the
results differ in the names of bound variables only, and the derivations make
the same number of contractions.
-/
theorem evaluate_alphaEquivalent
    {left right leftResult rightResult : Term}
    {leftLimit rightLimit : Nat}
    (leftRegular : left.Regular)
    (rightRegular : right.Regular)
    (equivalent : left.alphaEquivalent right = true)
    (leftEvaluated : left.evaluate leftLimit = .ok leftResult)
    (rightEvaluated : right.evaluate rightLimit = .ok rightResult) :
    leftResult.alphaEquivalent rightResult = true ∧
      ∃ leftSteps rightSteps : List Step,
        left.derivation leftLimit = .ok leftSteps ∧
          right.derivation rightLimit = .ok rightSteps ∧
          leftSteps.countP (fun step => step.kind = .beta) =
            rightSteps.countP (fun step => step.kind = .beta) := by
  obtain ⟨leftSteps, leftShort, leftRun, leftFree⟩ := evaluate_eq_ok_iff.mp leftEvaluated
  obtain ⟨rightSteps, rightShort, rightRun, rightFree⟩ := evaluate_eq_ok_iff.mp rightEvaluated
  have sameStart : left.nameless = right.nameless :=
    (leftRegular.unmarked.alphaEquivalent_iff rightRegular.unmarked).mp equivalent
  have contractions := leftRun.leftmostRun leftRegular
  have otherContractions := rightRun.leftmostRun rightRegular
  rw [sameStart] at contractions
  obtain ⟨sameCount, sameResult⟩ :=
    contractions.unique otherContractions leftFree.contractLeftmost?_nameless
      rightFree.contractLeftmost?_nameless
  have sameResults :=
    ((leftRun.unmarked leftRegular.unmarked).alphaEquivalent_iff
      (rightRun.unmarked rightRegular.unmarked)).mpr sameResult
  exact ⟨sameResults, leftSteps, rightSteps,
    derivationWithin_eq_ok_iff.mpr ⟨leftShort, leftResult, leftRun, leftFree⟩,
    derivationWithin_eq_ok_iff.mpr ⟨rightShort, rightResult, rightRun, rightFree⟩, sameCount⟩

/-- The redex (λx.∀u.R(x,u))(y) with the given name for u. -/
def relatedToAll (inner : String) : Redex where
  bound := ⟨"x", .entity⟩
  body :=
    .bind .universal ⟨inner, .entity⟩
      (.app (.const ⟨"R", .predicate (.prod [.entity, .entity])⟩)
        (.tuple [.var ⟨"x", .entity⟩, .var ⟨inner, .entity⟩]))
  argument := .var ⟨"y", .entity⟩

/-- What becomes of it: ∀u.R(y,u). -/
def allRelated (inner : String) : Term :=
  .bind .universal ⟨inner, .entity⟩
    (.app (.const ⟨"R", .predicate (.prod [.entity, .entity])⟩)
      (.tuple [.var ⟨"y", .entity⟩, .var ⟨inner, .entity⟩]))

theorem typed_relatedToAll
    {inner : String}
    (notX : inner ≠ "x") :
    Typed .empty (relatedToAll inner).toTerm .truth where
  monomorphic := by
    simp [relatedToAll, Redex.toTerm, Redex.function, Ty.predicate, Ty.entity]
  annotated := by
    simp [relatedToAll, Redex.toTerm, Redex.function, AnnotatedIn, Scope.empty, notX.symm]
  hasType := by
    simp [relatedToAll, Redex.toTerm, Redex.function, binderRule_lambda_iff,
      binderRule_universal_iff, Ty.predicate]

theorem leftmostRedex?_relatedToAll {inner : String} :
    (relatedToAll inner).toTerm.leftmostRedex? = some ⟨[], relatedToAll inner⟩ :=
  rfl

theorem not_captures_relatedToAll
    {inner : String}
    (notY : inner ≠ "y") :
    ¬(relatedToAll inner).Captures := by
  simp [relatedToAll, Redex.Captures, captures_bind_iff, captures_app_iff,
    captures_tuple_iff, hasFree, notY.symm]

/-- Unless u is called y, it is contracted at once. -/
theorem step?_relatedToAll
    {inner : String}
    (notX : inner ≠ "x")
    (notY : inner ≠ "y") :
    (relatedToAll inner).toTerm.step? = .ok (some ⟨.beta, allRelated inner⟩) := by
  have stepped :=
    (typed_relatedToAll notX).step?_of_not_captures leftmostRedex?_relatedToAll
      (not_captures_relatedToAll notY)
  simpa [PlacedRedex.replace, relatedToAll, allRelated, substitute, substituteAll, notX]
    using stepped

/-- If u is called y, it is renamed first. -/
theorem step?_relatedToAll_captured :
    (relatedToAll "y").toTerm.step? = .ok (some ⟨.alpha, (relatedToAll "y'").toTerm⟩) := by
  have captures : (relatedToAll "y").Captures := by
    simp [relatedToAll, Redex.Captures, captures_bind_iff, hasFree, anyHasFree]
  have apart : (relatedToAll "y").renamed = relatedToAll "y'" := by
    decide +kernel
  have stepped :=
    (typed_relatedToAll (by decide)).step?_of_captures leftmostRedex?_relatedToAll captures
  rw [apart] at stepped
  exact stepped

/-- Where u is called y it is renamed first, and where it is called z it is not. -/
theorem evaluate_alphaEquivalent_relatedToAll :
    (relatedToAll "y").toTerm.alphaEquivalent (relatedToAll "z").toTerm = true ∧
      (relatedToAll "y").toTerm.evaluate 2 = .ok (allRelated "y'") ∧
      (relatedToAll "z").toTerm.evaluate 1 = .ok (allRelated "z") ∧
      (allRelated "y'").alphaEquivalent (allRelated "z") = true := by
  have typed : Typed .empty (relatedToAll "y").toTerm .truth :=
    typed_relatedToAll (by decide)
  have typedOther : Typed .empty (relatedToAll "z").toTerm .truth :=
    typed_relatedToAll (by decide)
  have regular : (relatedToAll "y").toTerm.Regular :=
    ⟨typed.monomorphic, typed.annotated, unmarked_of_identifiers (by decide +kernel)⟩
  have otherRegular : (relatedToAll "z").toTerm.Regular :=
    ⟨typedOther.monomorphic, typedOther.annotated, unmarked_of_identifiers (by decide +kernel)⟩
  have equivalent :
      (relatedToAll "y").toTerm.alphaEquivalent (relatedToAll "z").toTerm = true := by
    decide +kernel
  have contracted :
      (relatedToAll "y'").toTerm.step? = .ok (some ⟨.beta, allRelated "y'"⟩) :=
    step?_relatedToAll (by decide) (by decide)
  have contractedOther :
      (relatedToAll "z").toTerm.step? = .ok (some ⟨.beta, allRelated "z"⟩) :=
    step?_relatedToAll (by decide) (by decide)
  have redexFree (inner : String) : (allRelated inner).RedexFree :=
    step?_eq_ok_none_iff.mp rfl
  have evaluated :=
    evaluate_eq_ok_iff.mpr
      ⟨_, Nat.le_refl 2, .step step?_relatedToAll_captured (.step contracted (.done _)),
        redexFree "y'"⟩
  have evaluatedOther :=
    evaluate_eq_ok_iff.mpr
      ⟨_, Nat.le_refl 1, .step contractedOther (.done _), redexFree "z"⟩
  obtain ⟨sameResults, _⟩ :=
    evaluate_alphaEquivalent regular otherRegular equivalent evaluated evaluatedOther
  exact ⟨equivalent, evaluated, evaluatedOther, sameResults⟩

end TypedLambda.Term
