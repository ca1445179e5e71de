import TypedLambda.Conversion.Derivation
import TypedLambda.Proofs.Conversion.LeftmostRedex
import TypedLambda.Proofs.Conversion.RenamingRun
import TypedLambda.Proofs.Outcome

namespace TypedLambda

/-!
# The cases of a conversion step

All that a step can do: it finds the leftmost redex, whose parts have to fit
together, and either renames the binders that would capture a free variable of
the argument or puts the argument in. Whatever is said of steps elsewhere is
derived from this.
-/

namespace Redex

/-- Whether putting in the argument naively would capture one of its free variables. -/
def Captures (redex : Redex) : Prop :=
  Term.Captures redex.bound.name redex.argument redex.body

/-- The contraction of a redex whose parts fit together, with the given alignment. -/
theorem exists_contract_eq_ok
    {redex : Redex}
    {functionType argumentType apartType range : Ty}
    {alignment : Ty.Substitution}
    (functionTyped : redex.function.typeOf = .ok functionType)
    (argumentTyped : redex.argument.typeOf = .ok argumentType)
    (apartTyped :
      (redex.apartArgument functionType argumentType).typeOf = .ok apartType)
    (applied :
      functionType.applyTo apartType redex.function = .ok (range, alignment)) :
    ∃ contraction, redex.contract = .ok contraction := by
  simp only [contract, functionTyped, argumentTyped, apartTyped, applied,
    Outcome.ok_bind]
  split
  · exact ⟨_, rfl⟩
  · exact ⟨_, rfl⟩

/--
What a contraction does: its parts fit together, and it puts in the specialised
argument where nothing is captured and renames otherwise.
-/
theorem contract_cases
    {redex : Redex}
    {contraction : Contraction}
    (contracted : redex.contract = .ok contraction) :
    ∃ functionType argumentType apartType range alignment,
      redex.function.typeOf = .ok functionType ∧
        redex.argument.typeOf = .ok argumentType ∧
        (redex.apartArgument functionType argumentType).typeOf = .ok apartType ∧
        functionType.applyTo apartType redex.function = .ok (range, alignment) ∧
        ((¬redex.Captures ∧ contraction.kind = .beta ∧
            contraction.result =
              Term.substitute redex.bound.name
                ((redex.apartArgument functionType argumentType).instantiate alignment)
                (redex.body.instantiate alignment)) ∨
          (redex.Captures ∧ contraction.kind = .alpha ∧
            contraction.result =
              .app (.bind .lambda redex.bound redex.renamedBody.1) redex.argument)) := by
  simp only [contract, Outcome.bind_eq_ok_iff] at contracted
  obtain ⟨functionType, functionTyped, argumentType, argumentTyped,
    apartType, apartTyped, ⟨range, alignment⟩, applied, decided⟩ := contracted
  refine ⟨functionType, argumentType, apartType, range, alignment,
    functionTyped, argumentTyped, apartTyped, applied, ?_⟩
  have missing : redex.renamedBody.2 = [] ↔ ¬redex.Captures :=
    renamedBody_renamings_eq_nil_iff
  revert missing
  cases renamed : redex.renamedBody with
  | mk body renamings =>
      cases renamings with
      | nil =>
          intro missing
          simp only [renamed, Outcome.pure_eq_ok_iff] at decided
          subst decided
          exact .inl ⟨missing.mp rfl, rfl, rfl⟩
      | cons latest earlier =>
          intro missing
          simp only [renamed, Outcome.pure_eq_ok_iff] at decided
          subst decided
          have captured : redex.Captures := by
            apply Classical.byContradiction
            intro safe
            exact List.cons_ne_nil _ _ (missing.mpr safe)
          exact .inr ⟨captured, rfl, rfl⟩

end Redex

namespace Term

/-- A step contracts the redex that the search finds and leaves the rest as it is. -/
theorem step?_cases
    {term : Term}
    {step : Step}
    (stepped : term.step? = .ok (some step)) :
    ∃ (place : PlacedRedex) (contraction : Contraction),
      term.leftmostRedex? = some place ∧
        place.redex.contract = .ok contraction ∧
        step = ⟨contraction.kind, place.replace contraction.result⟩ := by
  unfold step? at stepped
  cases found : term.leftmostRedex? with
  | none =>
      simp [found] at stepped
  | some place =>
      simp only [found, Outcome.bind_eq_ok_iff, Outcome.pure_eq_ok_iff,
        Option.some.injEq] at stepped
      obtain ⟨contraction, contracted, rfl⟩ := stepped
      exact ⟨place, contraction, rfl, contracted, rfl⟩

/-- A derivation fails where a step does, at the limit, or further down. -/
theorem derivationWithin_error_cases
    {limit remaining : Nat}
    {term : Term}
    {error : EvaluationError}
    (failed : derivationWithin limit remaining term = .error error) :
    (∃ reason, term.step? = .error reason ∧ error = .illTyped reason) ∨
      ∃ step, term.step? = .ok (some step) ∧
        (remaining = 0 ∧ error = .limitExceeded limit ∨
          ∃ fewer, remaining = fewer + 1 ∧
            derivationWithin limit fewer step.result = .error error) := by
  unfold derivationWithin at failed
  cases stepped : term.step? with
  | error reason =>
      simp only [stepped, Except.error.injEq] at failed
      exact .inl ⟨reason, rfl, failed.symm⟩
  | ok outcome =>
      cases outcome with
      | none =>
          simp [stepped] at failed
      | some step =>
          refine .inr ⟨step, rfl, ?_⟩
          cases remaining with
          | zero =>
              simp only [stepped, Except.error.injEq] at failed
              exact .inl ⟨rfl, failed.symm⟩
          | succ fewer =>
              cases rest : derivationWithin limit fewer step.result with
              | ok steps =>
                  simp only [stepped, rest] at failed
                  cases failed
              | error reason =>
                  simp only [stepped, rest] at failed
                  cases failed
                  exact .inr ⟨fewer, rfl, rest⟩

end Term

end TypedLambda
