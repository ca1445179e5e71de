import TypedLambda.Proofs.Term.ReadTerms
import TypedLambda.Proofs.Typing.Annotation

namespace TypedLambda.Term

/-!
# Read terms are annotated

A convention gives a name one type wherever the name stands, so in a term that
has been read every occurrence of a bound variable carries its binder's type.
-/

variable {options : ReadingOptions} {term : Term}

/-- A readable term is annotated below binders that follow the conventions as well. -/
theorem Readable.annotatedIn
    {scope : Scope}
    (readable : term.Readable options)
    (conventional :
      ∀ name ty, scope name = some ty →
        options.conventions.lookup? name = some (.variable, ty)) :
    term.AnnotatedIn scope := by
  induction term generalizing scope with
  | var identifier =>
      intro ty isBound
      have known := conventional identifier.name ty isBound
      rw [readable.2] at known
      cases known
      rfl
  | const identifier =>
      trivial
  | bind binder bound body inductionHypothesis =>
      obtain ⟨admits, readableBody⟩ := readable
      apply inductionHypothesis readableBody
      intro name ty isBound
      rw [Scope.enter_apply] at isBound
      split at isBound
      · next same =>
          cases isBound
          exact same ▸ admits.2
      · exact conventional name ty isBound
  | tuple items inductionHypothesis =>
      simp only [Readable, allReadable_iff_forall] at readable
      rw [AnnotatedIn, allAnnotatedIn_iff_forall]
      intro item member
      exact inductionHypothesis item member (readable.2 item member) conventional
  | neg operand inductionHypothesis =>
      exact inductionHypothesis readable conventional
  | app _ _ firstHypothesis secondHypothesis
  | connect _ _ _ firstHypothesis secondHypothesis
  | equal _ _ firstHypothesis secondHypothesis
  | relate _ _ _ firstHypothesis secondHypothesis =>
      exact ⟨firstHypothesis readable.1 conventional,
        secondHypothesis readable.2 conventional⟩

/-- Every term that is read is annotated. -/
theorem annotated_of_read
    {text : String}
    (result : read options text = .ok term) :
    term.Annotated :=
  (readable_of_read result).annotatedIn nofun

end TypedLambda.Term
