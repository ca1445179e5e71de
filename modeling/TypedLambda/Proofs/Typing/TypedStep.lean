import TypedLambda.Proofs.Nameless.NamedContraction
import TypedLambda.Proofs.Typing.AnnotatedRenaming
import TypedLambda.Proofs.Typing.TypeSafety

namespace TypedLambda

/-!
# Steps of typed terms

On typed terms a step has its meaning with the types in place. Every variable
that is renamed carries the type of its binder, so a renaming is one of names
only, and there are no type variables to specialise, so a contraction puts in
the argument as it is. A renaming leaves the nameless term the same, and a
contraction reduces it.
-/

open Term (AlphaEq Typed)

namespace Redex

variable {scope : Scope} {redex : Redex} {contraction : Contraction} {ty : Ty}

/-- What becomes of a redex without type variables: the argument is put in as it is. -/
theorem contract_cases_of_monomorphic
    (monomorphic : redex.toTerm.Monomorphic)
    (contracted : redex.contract = .ok contraction) :
    (redex.Captures ∧ contraction.kind = .alpha ∧
        contraction.result = redex.renamed.toTerm) ∨
      (¬redex.Captures ∧ contraction.kind = .beta ∧
        contraction.result =
          Term.substitute redex.bound.name redex.argument redex.body) := by
  obtain ⟨ofFunction, ofArgument⟩ := Term.monomorphic_app.mp monomorphic
  obtain ⟨_, ofBody⟩ := Term.monomorphic_bind.mp ofFunction
  obtain ⟨_, _, _, _, alignment, _, _, _, _, safe | capturing⟩ :=
    contract_cases contracted
  · obtain ⟨safe, kind, result⟩ := safe
    refine .inr ⟨safe, kind, ?_⟩
    rw [result, apartArgument, ofArgument.instantiate_eq_self,
      ofArgument.instantiate_eq_self, ofBody.instantiate_eq_self]
  · exact .inl capturing

/-- A redex without type variables that is contracted has a type. -/
theorem exists_typed_of_contract
    (monomorphic : redex.toTerm.Monomorphic)
    (annotated : redex.toTerm.AnnotatedIn scope)
    (contracted : redex.contract = .ok contraction) :
    ∃ ty, Typed scope redex.toTerm ty := by
  obtain ⟨ofFunction, ofArgument⟩ := Term.monomorphic_app.mp monomorphic
  obtain ⟨_, _, _, range, _, functionTyped, _, apartTyped, applied, _⟩ :=
    contract_cases contracted
  rw [apartArgument, ofArgument.instantiate_eq_self] at apartTyped
  rw [Term.typeOf_eq_ok_iff ofFunction] at functionTyped
  rw [Term.typeOf_eq_ok_iff ofArgument] at apartTyped
  obtain ⟨rfl, _⟩ :=
    (Ty.applyTo_ground_eq_ok_iff (functionTyped.ground ofFunction)
      (apartTyped.ground ofArgument)).mp applied
  exact ⟨range, monomorphic, annotated, .app functionTyped apartTyped⟩

end Redex

namespace Term

/-- A typed term with a redex has a next step. -/
theorem Typed.exists_step?
    {scope : Scope}
    {term : Term}
    {ty : Ty}
    {place : PlacedRedex}
    (typed : Typed scope term ty)
    (found : term.leftmostRedex? = some place) :
    ∃ step, term.step? = .ok (some step) := by
  cases stepped : term.step? with
  | error reason =>
      exact (typed.step?_ne_error reason stepped).elim
  | ok outcome =>
      cases outcome with
      | some step =>
          exact ⟨step, rfl⟩
      | none =>
          simp [step?, found] at stepped

/-- A part of a term without type variables has none, and may be exchanged for another one. -/
theorem Monomorphic.part
    {context : Context}
    {term : Term}
    (monomorphic : (context.fill term).Monomorphic) :
    term.Monomorphic ∧
      ∀ other : Term, other.Monomorphic → (context.fill other).Monomorphic := by
  induction context with
  | nil =>
      exact ⟨monomorphic, fun _ ofOther => ofOther⟩
  | cons frame rest inductionHypothesis =>
      have inFrame :
          (Context.fill rest term).Monomorphic ∧
            ∀ other : Term, other.Monomorphic → (frame.fill other).Monomorphic := by
        rw [Context.fill_cons] at monomorphic
        cases frame <;> simp [Frame.fill] at monomorphic ⊢ <;> grind
      obtain ⟨ofTerm, exchanged⟩ := inductionHypothesis inFrame.1
      exact ⟨ofTerm, fun other ofOther => inFrame.2 _ (exchanged other ofOther)⟩

/-- Another name brings in no type variables. -/
theorem monomorphic_rename_iff
    {term : Term}
    (old new : String) :
    (term.rename old new).Monomorphic ↔ term.Monomorphic := by
  induction term with
  | var identifier =>
      rw [rename]
      split <;> simp
  | const identifier =>
      exact Iff.rfl
  | bind binder bound body inductionHypothesis =>
      rw [rename]
      split
      · exact Iff.rfl
      · simp [inductionHypothesis]
  | tuple items inductionHypothesis =>
      simp only [rename, renameAll_eq_map, monomorphic_tuple, List.forall_mem_map]
      exact forall₂_congr inductionHypothesis
  | _ =>
      simp_all [rename]

/-- Terms that differ in names only have type variables alike. -/
theorem AlphaEq.monomorphic_iff
    {left right : Term}
    (equivalent : AlphaEq left right) :
    left.Monomorphic ↔ right.Monomorphic := by
  induction equivalent with
  | refl =>
      exact Iff.rfl
  | symm _ inductionHypothesis =>
      exact inductionHypothesis.symm
  | trans _ _ firstHypothesis secondHypothesis =>
      exact firstHypothesis.trans secondHypothesis
  | @frame frame left right _ inductionHypothesis =>
      have ofWhole
          {term other : Term}
          (monomorphic : (Context.fill [frame] term).Monomorphic)
          (exchanged : term.Monomorphic → other.Monomorphic) :
          (Context.fill [frame] other).Monomorphic :=
        monomorphic.part.2 other (exchanged monomorphic.part.1)
      exact ⟨fun whole => ofWhole whole inductionHypothesis.mp,
        fun whole => ofWhole whole inductionHypothesis.mpr⟩
  | rename binder bound new body fresh =>
      rw [monomorphic_bind, monomorphic_bind, monomorphic_rename_iff]

/-- What a step of an annotated term without type variables does. -/
theorem Monomorphic.step_cases
    {scope : Scope}
    {term : Term}
    (monomorphic : term.Monomorphic)
    (annotated : term.AnnotatedIn scope)
    {step : Step}
    (stepped : term.step? = .ok (some step)) :
    ∃ place : PlacedRedex,
      term.leftmostRedex? = some place ∧
        ((place.redex.Captures ∧ step.kind = .alpha ∧
            step.result = place.replace place.redex.renamed.toTerm ∧
            AlphaEq term step.result) ∨
          (¬place.redex.Captures ∧ step.kind = .beta ∧
            step.result =
              place.replace (Term.substitute place.redex.bound.name
                place.redex.argument place.redex.body) ∧
            Nameless.Reduces term.nameless step.result.nameless)) := by
  obtain ⟨place, contraction, found, contracted, rfl⟩ := step?_cases stepped
  obtain ⟨rfl, _⟩ := isLeftmost_of_leftmostRedex? found
  obtain ⟨_, inRedex, _⟩ := annotated.exists_part
  refine ⟨place, found, ?_⟩
  rcases Redex.contract_cases_of_monomorphic monomorphic.part.1 contracted with
    ⟨captures, kind, result⟩ | ⟨safe, kind, result⟩
  · have equivalent :=
      AlphaEq.isCongruence.context place.context
        (Redex.alphaEq_renamed_of_annotated inRedex)
    rw [← result] at equivalent
    exact .inl ⟨captures, kind, congrArg place.replace result, equivalent⟩
  · have reduces :=
      reduces_namelessIn_fill place.context (reduces_namelessIn_toTerm safe) []
    rw [← result] at reduces
    exact .inr ⟨safe, kind, congrArg place.replace result, reduces⟩

/-- A step brings in no type variables, and occurrences keep carrying their binders' types. -/
theorem Monomorphic.step
    {scope : Scope}
    {term : Term}
    (monomorphic : term.Monomorphic)
    (annotated : term.AnnotatedIn scope)
    {step : Step}
    (stepped : term.step? = .ok (some step)) :
    step.result.Monomorphic ∧ step.result.AnnotatedIn scope := by
  obtain ⟨place, contraction, found, contracted, rfl⟩ := step?_cases stepped
  obtain ⟨rfl, _⟩ := isLeftmost_of_leftmostRedex? found
  obtain ⟨ofRedex, exchanged⟩ := monomorphic.part
  obtain ⟨_, inRedex, exchangedIn⟩ := annotated.exists_part
  obtain ⟨_, typedRedex⟩ := Redex.exists_typed_of_contract ofRedex inRedex contracted
  have typedResult := Redex.typed_contraction typedRedex contracted
  exact ⟨exchanged _ typedResult.monomorphic, exchangedIn _ typedResult.annotated⟩

/-- The next step of a typed term with a redex that would capture something renames. -/
theorem Typed.step?_of_captures
    {scope : Scope}
    {term : Term}
    {ty : Ty}
    {place : PlacedRedex}
    (typed : Typed scope term ty)
    (found : term.leftmostRedex? = some place)
    (captures : place.redex.Captures) :
    term.step? = .ok (some ⟨.alpha, place.replace place.redex.renamed.toTerm⟩) := by
  obtain ⟨step, stepped⟩ := typed.exists_step? found
  obtain ⟨_, isPlace, ⟨_, alpha, result, _⟩ | ⟨safe, _⟩⟩ :=
    typed.monomorphic.step_cases typed.annotated stepped
  · rw [found, Option.some.injEq] at isPlace
    subst isPlace
    rw [stepped, ← alpha, ← result]
  · rw [found, Option.some.injEq] at isPlace
    exact (safe (isPlace ▸ captures)).elim

/-- The next step of a typed term with a redex that captures nothing contracts it. -/
theorem Typed.step?_of_not_captures
    {scope : Scope}
    {term : Term}
    {ty : Ty}
    {place : PlacedRedex}
    (typed : Typed scope term ty)
    (found : term.leftmostRedex? = some place)
    (safe : ¬place.redex.Captures) :
    term.step? =
      .ok (some ⟨.beta, place.replace (Term.substitute place.redex.bound.name
        place.redex.argument place.redex.body)⟩) := by
  obtain ⟨step, stepped⟩ := typed.exists_step? found
  obtain ⟨_, isPlace, ⟨captures, _⟩ | ⟨_, beta, result, _⟩⟩ :=
    typed.monomorphic.step_cases typed.annotated stepped
  · rw [found, Option.some.injEq] at isPlace
    exact (safe (isPlace ▸ captures)).elim
  · rw [found, Option.some.injEq] at isPlace
    subst isPlace
    rw [stepped, ← beta, ← result]

/-- A step of a typed term that renames leaves the nameless term the same. -/
theorem Typed.nameless_eq_of_alpha
    {scope : Scope}
    {term : Term}
    {ty : Ty}
    (typed : Typed scope term ty)
    {step : Step}
    (stepped : term.step? = .ok (some step))
    (alpha : step.kind = .alpha) :
    step.result.nameless = term.nameless := by
  obtain ⟨_, _, ⟨_, _, _, equivalent⟩ | ⟨_, beta, _⟩⟩ :=
    typed.monomorphic.step_cases typed.annotated stepped
  · exact (alphaEq_iff_nameless_eq.mp equivalent).symm
  · rw [beta] at alpha
    cases alpha

/-- A step of a typed term that puts in an argument reduces the nameless term. -/
theorem Typed.reduces_of_beta
    {scope : Scope}
    {term : Term}
    {ty : Ty}
    (typed : Typed scope term ty)
    {step : Step}
    (stepped : term.step? = .ok (some step))
    (beta : step.kind = .beta) :
    Nameless.Reduces term.nameless step.result.nameless := by
  obtain ⟨_, _, ⟨_, alpha, _⟩ | ⟨_, _, _, reduces⟩⟩ :=
    typed.monomorphic.step_cases typed.annotated stepped
  · rw [alpha] at beta
    cases beta
  · exact reduces

end Term

end TypedLambda
