import TypedLambda.Proofs.Conversion.Runs
import TypedLambda.Proofs.Normalisation.Reducibility
import TypedLambda.Proofs.Typing.TypedStep

namespace TypedLambda.Term

/-!
# Termination of conversion

A contraction reduces the nameless term, and that of a typed term cannot be
reduced for ever. A renaming leaves it as it is, but it is always followed by
a contraction or by nothing. So conversion of a typed term comes to an end,
and evaluation gives the end of it for every limit that is large enough.
-/

/-- A typed term has a next step unless no redex is left. -/
theorem Typed.redexFree_or_exists_step
    {scope : Scope}
    {term : Term}
    {ty : Ty}
    (typed : Typed scope term ty) :
    term.RedexFree ∨ ∃ step, term.step? = .ok (some step) := by
  cases found : term.leftmostRedex? with
  | none =>
      exact .inl (leftmostRedex?_eq_none_iff.mp found)
  | some place =>
      exact .inr (typed.exists_step? found)

/-- From a typed term there is a run to one without redexes. -/
theorem Typed.exists_derives
    {term : Term}
    {ty : Ty}
    (typed : Typed .empty term ty) :
    ∃ steps last, Derives term steps last ∧ last.RedexFree := by
  have ends := typed.stronglyNormalising
  generalize isNameless : term.nameless = nameless at ends
  induction ends generalizing term with
  | intro nameless _ inductionHypothesis =>
      subst isNameless
      -- After a renaming the contraction that follows it reduces the same nameless term.
      have afterBeta
          {before : Term}
          {step : Step}
          (ofBefore : Typed .empty before ty)
          (same : before.nameless = term.nameless)
          (stepped : before.step? = .ok (some step))
          (beta : step.kind = .beta) :
          ∃ steps last, Derives before steps last ∧ last.RedexFree := by
        have reduces := ofBefore.reduces_of_beta stepped beta
        rw [same] at reduces
        obtain ⟨later, last, run, free⟩ :=
          inductionHypothesis _ reduces (ofBefore.converts ⟨step.kind, stepped⟩) rfl
        exact ⟨step :: later, last, .step stepped run, free⟩
      rcases typed.redexFree_or_exists_step with free | ⟨step, stepped⟩
      · exact ⟨[], term, .done term, free⟩
      · cases kind : step.kind with
        | beta =>
            exact afterBeta typed rfl stepped kind
        | alpha =>
            have ofResult := typed.converts ⟨step.kind, stepped⟩
            have same := typed.nameless_eq_of_alpha stepped kind
            rcases ofResult.redexFree_or_exists_step with free | ⟨next, steppedAgain⟩
            · exact ⟨[step], step.result, .step stepped (.done _), free⟩
            · have beta := kind_eq_beta_of_alpha stepped kind steppedAgain
              obtain ⟨later, last, run, free⟩ :=
                afterBeta ofResult same steppedAgain beta
              exact ⟨step :: later, last, .step stepped run, free⟩

/--
Conversion terminates. A term without type variables whose bound variables
carry their binders' types, and which has a type, is evaluated to a term
without redexes, the same one whenever the limit is large enough.
-/
theorem evaluate_terminates
    {term : Term}
    {ty : Ty}
    (monomorphic : term.Monomorphic)
    (annotated : term.Annotated)
    (typeFound : term.typeOf = .ok ty) :
    ∃ enough result,
      result.RedexFree ∧
        ∀ limit, enough ≤ limit → term.evaluate limit = .ok result := by
  have typed : Typed .empty term ty :=
    ⟨monomorphic, annotated, (typeOf_eq_ok_iff monomorphic).mp typeFound⟩
  obtain ⟨steps, last, run, free⟩ := typed.exists_derives
  exact ⟨steps.length, last, free, fun limit enough =>
    evaluate_eq_ok_iff.mpr ⟨steps, enough, run, free⟩⟩

/-- The application of λF.λx.F(F(x)) to λy.h(y), which has one redex and soon two. -/
def doublingApplication : Term :=
  .app
    (.bind .lambda ⟨"F", .fn .entity .entity⟩
      (.bind .lambda ⟨"x", .entity⟩
        (.app (.var ⟨"F", .fn .entity .entity⟩)
          (.app (.var ⟨"F", .fn .entity .entity⟩) (.var ⟨"x", .entity⟩)))))
    (.bind .lambda ⟨"y", .entity⟩
      (.app (.const ⟨"h", .fn .entity .entity⟩) (.var ⟨"y", .entity⟩)))

/-- The evaluation of (λF.λx.F(F(x)))(λy.h(y)) ends, although the argument is copied. -/
theorem evaluate_terminates_doublingApplication :
    doublingApplication.Monomorphic ∧
      doublingApplication.Annotated ∧
      doublingApplication.typeOf = .ok (.fn .entity .entity) ∧
      ∃ enough result,
        result.RedexFree ∧
          ∀ limit, enough ≤ limit → doublingApplication.evaluate limit = .ok result := by
  have monomorphic : doublingApplication.Monomorphic := by
    decide
  have annotated : doublingApplication.Annotated := by
    simp [doublingApplication, Annotated, AnnotatedIn]
  have doubled :
      HasType
        (.app (.var ⟨"F", .fn .entity .entity⟩)
          (.app (.var ⟨"F", .fn .entity .entity⟩) (.var ⟨"x", .entity⟩)))
        .entity :=
    .app (.var _) (.app (.var _) (.var _))
  have applied :
      HasType
        (.app (.const ⟨"h", .fn .entity .entity⟩) (.var ⟨"y", .entity⟩)) .entity :=
    .app (.const _) (.var _)
  have hasType : HasType doublingApplication (.fn .entity .entity) :=
    .app (.bind (.bind doubled (.lambda _ _)) (.lambda _ _))
      (.bind applied (.lambda _ _))
  have typeFound := (typeOf_eq_ok_iff monomorphic).mpr hasType
  exact ⟨monomorphic, annotated, typeFound,
    evaluate_terminates monomorphic annotated typeFound⟩

end TypedLambda.Term
