import TypedLambda.Proofs.Alpha.Decision
import TypedLambda.Proofs.Conversion.Runs

namespace TypedLambda

/-!
# Free variables along a run

A step frees no variable: what is free in its result is free in the term. What
is put in brings its free variables from the argument of the redex, and a
binder that is renamed goes on binding what it bound.
-/

namespace Term

/-- Every variable that is free in one term is free in the other one. -/
def FreeIn (part whole : Term) : Prop :=
  ∀ name, part.hasFree name = true → whole.hasFree name = true

@[simp] theorem hasFree_instantiate
    (substitution : Ty.Substitution)
    (name : String)
    (term : Term) :
    (term.instantiate substitution).hasFree name = term.hasFree name := by
  induction term with
  | tuple items inductionHypothesis =>
      rw [Bool.eq_iff_iff]
      simp only [instantiate, instantiateAll_eq_map, hasFree, anyHasFree_eq_any, List.any_map,
        List.any_eq_true]
      exact exists_congr fun item => and_congr_right fun member => by
        simp [inductionHypothesis item member]
  | _ =>
      simp_all [instantiate, hasFree, Identifier.instantiate]

/-- Exchanging a part for one with fewer free variables frees no variable in the whole. -/
theorem FreeIn.fill
    {before after : Term}
    (freeIn : FreeIn after before)
    (context : Context) :
    FreeIn (context.fill after) (context.fill before) := by
  induction context with
  | nil =>
      exact freeIn
  | cons frame rest inductionHypothesis =>
      intro name
      have below := inductionHypothesis name
      cases frame <;> simp [Frame.fill, hasFree] <;> grind

/-- A binder that gets another name binds at least what it bound. -/
theorem freeIn_rename_binder
    (binder : Binder)
    (bound : Identifier)
    (new : String)
    (body : Term) :
    FreeIn (.bind binder ⟨new, bound.ty⟩ (substitute bound.name (.var ⟨new, bound.ty⟩) body))
      (.bind binder bound body) := by
  intro name free
  simp only [hasFree, Bool.and_eq_true, bne_iff_ne] at free ⊢
  obtain ⟨notNew, inBody⟩ := free
  rcases hasFree_of_hasFree_substitute inBody with isNew | ⟨notBound, wasFree⟩
  · simp [hasFree, notNew] at isNew
  · exact ⟨notBound.symm, wasFree⟩

/-- A contraction frees no variable. -/
theorem freeIn_contract
    {redex : Redex}
    {contraction : Contraction}
    (contracted : redex.contract = .ok contraction) :
    FreeIn contraction.result redex.toTerm := by
  intro name free
  simp only [Redex.toTerm, Redex.function, hasFree, Bool.or_eq_true, Bool.and_eq_true,
    bne_iff_ne]
  obtain ⟨_, _, _, _, _, _, _, _, _, ⟨_, _, result⟩ | ⟨_, _, result⟩⟩ :=
    Redex.contract_cases contracted
  · rw [result] at free
    rcases hasFree_of_hasFree_substitute free with inArgument | ⟨notBound, inBody⟩
    · exact .inr (by simpa [Redex.apartArgument] using inArgument)
    · exact .inl ⟨notBound.symm, by simpa using inBody⟩
  · have inRenamed : FreeIn redex.renamedBody.1 redex.body :=
      redex.renamedBody_invariant (FreeIn · redex.body)
        (fun context binder bound body new _ before name free =>
          before name ((freeIn_rename_binder binder bound new body).fill context name free))
        (fun _ free => free)
    simp only [result, hasFree, Bool.or_eq_true, Bool.and_eq_true, bne_iff_ne] at free
    exact free.imp_left fun inFunction => ⟨inFunction.1, inRenamed name inFunction.2⟩

/-- A step frees no variable. -/
theorem freeIn_step
    {term : Term}
    {step : Step}
    (stepped : term.step? = .ok (some step)) :
    FreeIn step.result term := by
  obtain ⟨place, contraction, found, contracted, rfl⟩ := step?_cases stepped
  obtain ⟨rfl, _⟩ := isLeftmost_of_leftmostRedex? found
  exact (freeIn_contract contracted).fill place.context

/-- A term is unmarked if its free variables are free in an unmarked term. -/
theorem Unmarked.of_freeIn
    {part whole : Term}
    (unmarked : whole.Unmarked)
    (freeIn : FreeIn part whole) :
    part.Unmarked :=
  fun name free => unmarked name (freeIn name free)

/-- A run from an unmarked term leads to an unmarked term. -/
theorem Derives.unmarked
    {term last : Term}
    {steps : List Step}
    (run : Derives term steps last)
    (unmarked : term.Unmarked) :
    last.Unmarked :=
  (run.forall_result Unmarked (fun _ _ before stepped => before.of_freeIn (freeIn_step stepped))
    unmarked).1

end Term

end TypedLambda
