import TypedLambda.Proofs.Conversion.StepCases
import TypedLambda.Proofs.Typing.Substitution

namespace TypedLambda

/-!
# Type safety of conversion

A typed redex is contracted without error to a term of the same type, so a
step never gets stuck on a typed term and never changes its type. The same
follows for any number of steps, and for derivations only the limit is left as
a reason to fail.
-/

open Relation (ReflTransGen)

namespace Redex

variable {scope : Scope} {redex : Redex} {ty : Ty}

/-- The parts of a typed redex. -/
theorem typed_toTerm_iff :
    Term.Typed scope redex.toTerm ty ↔
      redex.bound.ty.Ground ∧
        Term.Typed (scope.enter redex.bound) redex.body ty ∧
        Term.Typed scope redex.argument redex.bound.ty := by
  rw [toTerm, function, Term.Typed.app_iff]
  simp only [Term.Typed.bind_iff, Term.binderRule_lambda_iff, Ty.fn.injEq]
  grind

/-- A typed redex is contracted without error. -/
theorem exists_contraction_of_typed
    (typed : Term.Typed scope redex.toTerm ty) :
    ∃ contraction, redex.contract = .ok contraction := by
  obtain ⟨domain, ofFunction, ofArgument⟩ := Term.Typed.app_iff.mp typed
  have functionTyped := ofFunction.typeOf_eq_ok
  have argumentTyped := ofArgument.typeOf_eq_ok
  have groundFunction := ofFunction.hasType.ground ofFunction.monomorphic
  have groundArgument := ofArgument.hasType.ground ofArgument.monomorphic
  refine exists_contract_eq_ok functionTyped argumentTyped ?_
    ((Ty.applyTo_ground_eq_ok_iff groundFunction groundArgument).mpr ⟨rfl, rfl⟩)
  rw [apartArgument, ofArgument.monomorphic.instantiate_eq_self]
  exact argumentTyped

/-- Renaming the capturing binders of a body keeps its type. -/
theorem typed_renamedBody
    (typed : Term.Typed scope redex.body ty) :
    Term.Typed scope redex.renamedBody.1 ty := by
  refine redex.renamedBody_invariant
    (fun term => Term.Typed scope term ty) ?_ typed
  intro context binder bound body new fresh before
  obtain ⟨inner, innerType, ofBinder, replaced⟩ := before.exists_typed_part
  exact replaced _ (ofBinder.rename_binder fresh)

/-- Contraction keeps the type. -/
theorem typed_contraction
    {contraction : Contraction}
    (typed : Term.Typed scope redex.toTerm ty)
    (contracted : redex.contract = .ok contraction) :
    Term.Typed scope contraction.result ty := by
  obtain ⟨ground, ofBody, ofArgument⟩ := typed_toTerm_iff.mp typed
  obtain ⟨_, _, _, _, alignment, _, _, _, _, safe | capturing⟩ :=
    contract_cases contracted
  · obtain ⟨safe, _, result⟩ := safe
    rw [result, apartArgument, ofArgument.monomorphic.instantiate_eq_self,
      ofArgument.monomorphic.instantiate_eq_self,
      ofBody.monomorphic.instantiate_eq_self]
    exact ofBody.substitute ofArgument safe
  · obtain ⟨_, _, result⟩ := capturing
    have renamed :
        Term.Typed scope
          (toTerm ⟨redex.bound, redex.renamedBody.1, redex.argument⟩) ty :=
      typed_toTerm_iff.mpr ⟨ground, typed_renamedBody ofBody, ofArgument⟩
    rw [result]
    exact renamed

end Redex

namespace Term

/-- One term is converted into another one in a single step. -/
def Converts (term result : Term) : Prop :=
  ∃ kind, term.step? = .ok (some ⟨kind, result⟩)

/-- A typed term is not refused by a step. -/
theorem Typed.step?_ne_error
    {scope : Scope}
    {term : Term}
    {ty : Ty}
    (typed : Typed scope term ty)
    (reason : TypeError) :
    term.step? ≠ .error reason := by
  intro refused
  unfold step? at refused
  cases found : term.leftmostRedex? with
  | none =>
      simp [found] at refused
  | some place =>
      obtain ⟨whole, _⟩ := isLeftmost_of_leftmostRedex? found
      rw [← whole] at typed
      obtain ⟨_, _, ofRedex, _⟩ := typed.exists_typed_part
      obtain ⟨contraction, contracted⟩ :=
        Redex.exists_contraction_of_typed ofRedex
      simp only [found, contracted, Outcome.ok_bind] at refused
      cases refused

/-- A step leads from a typed term to one of the same type. -/
theorem Typed.converts
    {scope : Scope}
    {term result : Term}
    {ty : Ty}
    (typed : Typed scope term ty)
    (converts : Converts term result) :
    Typed scope result ty := by
  obtain ⟨kind, stepped⟩ := converts
  obtain ⟨place, contraction, found, contracted, same⟩ := step?_cases stepped
  cases same
  obtain ⟨whole, _⟩ := isLeftmost_of_leftmostRedex? found
  rw [← whole] at typed
  obtain ⟨_, _, ofRedex, replaced⟩ := typed.exists_typed_part
  exact replaced _ (Redex.typed_contraction ofRedex contracted)

/-- Any number of steps leads from a typed term to one of the same type. -/
theorem Typed.converts_star
    {scope : Scope}
    {term result : Term}
    {ty : Ty}
    (typed : Typed scope term ty)
    (run : ReflTransGen Converts term result) :
    Typed scope result ty := by
  induction run with
  | refl =>
      exact typed
  | tail _ converts inductionHypothesis =>
      exact inductionHypothesis.converts converts

/-- The derivation of a typed term fails at the limit only. -/
theorem Typed.derivationWithin_error
    {scope : Scope}
    {term : Term}
    {ty : Ty}
    (typed : Typed scope term ty)
    {limit remaining : Nat}
    {error : EvaluationError}
    (failed : derivationWithin limit remaining term = .error error) :
    error = .limitExceeded limit := by
  induction remaining generalizing term with
  | zero =>
      rcases derivationWithin_error_cases failed with
        ⟨reason, refused, _⟩ | ⟨step, stepped, ⟨_, atLimit⟩ | ⟨_, ⟨⟩, _⟩⟩
      · exact (typed.step?_ne_error reason refused).elim
      · exact atLimit
  | succ remaining inductionHypothesis =>
      rcases derivationWithin_error_cases failed with
        ⟨reason, refused, _⟩ | ⟨step, stepped, ⟨⟨⟩, _⟩ | ⟨_, ⟨⟩, later⟩⟩
      · exact (typed.step?_ne_error reason refused).elim
      · exact inductionHypothesis (typed.converts ⟨step.kind, stepped⟩) later

/--
Type safety. A term without type variables whose bound variables carry their
binders' types, and which has a type, keeps all this in any number of steps
and is never refused by one, so its derivation fails at the limit only.
-/
theorem conversion_typeSafe
    {term : Term}
    {ty : Ty}
    (monomorphic : term.Monomorphic)
    (annotated : term.Annotated)
    (typeFound : term.typeOf = .ok ty) :
    (∀ reached, ReflTransGen Converts term reached →
        reached.Monomorphic ∧ reached.Annotated ∧
          reached.typeOf = .ok ty ∧
          ∀ reason, reached.step? ≠ .error reason) ∧
      ∀ limit error,
        term.derivation limit = .error error → error = .limitExceeded limit := by
  have typed : Typed .empty term ty :=
    ⟨monomorphic, annotated, (typeOf_eq_ok_iff monomorphic).mp typeFound⟩
  constructor
  · intro reached run
    have after := typed.converts_star run
    exact ⟨after.monomorphic, after.annotated,
      (typeOf_eq_ok_iff after.monomorphic).mpr after.hasType,
      after.step?_ne_error⟩
  · intro limit error failed
    exact typed.derivationWithin_error failed

/-- The application of λx.∀y.R(x,y) to a variable that the quantifier would capture. -/
def capturingQuantification : Term :=
  .app
    (.bind .lambda ⟨"x", .entity⟩
      (.bind .universal ⟨"y", .entity⟩
        (.app (.const ⟨"R", .predicate (.prod [.entity, .entity])⟩)
          (.tuple [.var ⟨"x", .entity⟩, .var ⟨"y", .entity⟩]))))
    (.var ⟨"y", .entity⟩)

/-- What (λx.∀y.R(x,y))(y) is converted into is again a truth value. -/
theorem conversion_typeSafe_capturingQuantification :
    capturingQuantification.Monomorphic ∧
      capturingQuantification.Annotated ∧
      capturingQuantification.typeOf = .ok .truth ∧
      ∀ reached, ReflTransGen Converts capturingQuantification reached →
        reached.typeOf = .ok .truth := by
  have monomorphic : capturingQuantification.Monomorphic := by
    decide
  have annotated : capturingQuantification.Annotated := by
    simp [capturingQuantification, Annotated, AnnotatedIn, Scope.empty]
  have related :
      HasType
        (.app (.const ⟨"R", .predicate (.prod [.entity, .entity])⟩)
          (.tuple [.var ⟨"x", .entity⟩, .var ⟨"y", .entity⟩]))
        .truth :=
    .app (.const _) (.tuple (.cons (.var _) (.cons (.var _) .nil)))
  have hasType : HasType capturingQuantification .truth :=
    .app (.bind (.bind related (.universal _)) (.lambda _ _)) (.var _)
  have typeFound : capturingQuantification.typeOf = .ok .truth :=
    (typeOf_eq_ok_iff monomorphic).mpr hasType
  refine ⟨monomorphic, annotated, typeFound, fun reached run => ?_⟩
  exact ((conversion_typeSafe monomorphic annotated typeFound).1 reached run).2.2.1

end Term

end TypedLambda
