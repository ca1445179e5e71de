import TypedLambda.Proofs.Alpha.Equivalence
import TypedLambda.Proofs.Conversion.AlphaStep
import TypedLambda.Proofs.Typing.Substitution

namespace TypedLambda

/-!
# Renaming in annotated terms

Where every occurrence of a bound variable carries its binder's type, giving a
binder another name by substitution changes names only, and the occurrences go
on carrying the type of their binder. A part may be exchanged for another one
that is annotated below the same binders.
-/

open Term (AlphaEq)

namespace Term

namespace AnnotatedIn

variable {scope : Scope} {term : Term}

/-- Where a variable carries its binder's type, putting in another of that type renames it. -/
theorem substitute_var
    {old : String}
    {ty : Ty}
    (annotated : term.AnnotatedIn scope)
    (isBound : scope old = some ty)
    (new : String) :
    substitute old (.var ⟨new, ty⟩) term = term.rename old new := by
  induction term generalizing scope with
  | var identifier =>
      rw [substitute, rename]
      split
      · next same =>
          rw [annotated ty (same ▸ isBound)]
      · rfl
  | const identifier =>
      rfl
  | bind binder bound body inductionHypothesis =>
      rw [substitute, rename]
      split
      · rfl
      · next different =>
          rw [inductionHypothesis annotated (by simp [Ne.symm different, isBound])]
  | tuple items inductionHypothesis =>
      simp only [AnnotatedIn, allAnnotatedIn_iff_forall] at annotated
      rw [substitute, rename, substituteAll_eq_map, renameAll_eq_map, Term.tuple.injEq]
      exact List.map_congr_left fun item member =>
        inductionHypothesis item member (annotated item member) isBound
  | neg operand inductionHypothesis =>
      rw [substitute, rename, inductionHypothesis annotated isBound]
  | app _ _ firstHypothesis secondHypothesis
  | connect _ _ _ firstHypothesis secondHypothesis
  | equal _ _ firstHypothesis secondHypothesis
  | relate _ _ _ firstHypothesis secondHypothesis =>
      rw [substitute, rename, firstHypothesis annotated.1 isBound,
        secondHypothesis annotated.2 isBound]

/-- A name that does not occur makes no difference to what bound occurrences carry. -/
theorem rename_iff
    {bound : Identifier}
    {new : String}
    (fresh : new ∉ term.nameOccurrences) :
    (term.rename bound.name new).AnnotatedIn (scope.enter ⟨new, bound.ty⟩) ↔
      term.AnnotatedIn (scope.enter bound) := by
  induction term generalizing scope with
  | var identifier =>
      have notNew : identifier.name ≠ new := by
        simpa [nameOccurrences, eq_comm] using fresh
      rw [Term.rename]
      split
      · next same =>
          simp [AnnotatedIn, same]
      · next different =>
          simp [AnnotatedIn, different, notNew]
  | const identifier =>
      exact Iff.rfl
  | bind binder other body inductionHypothesis =>
      rw [nameOccurrences, List.mem_cons, not_or] at fresh
      rw [Term.rename]
      split
      · next same =>
          simp only [AnnotatedIn, Scope.enter_enter_of_eq same.symm]
          -- The inner binder hides the outer one, and the new name does not occur below it.
          have agree (name : String) (free : body.hasFree name = true) :
              ((scope.enter ⟨new, bound.ty⟩).enter other) name = (scope.enter other) name := by
            have notNew : name ≠ new := fun isNew =>
              fresh.2 (isNew ▸ mem_nameOccurrences_of_hasFree free)
            simp [notNew]
          exact ⟨fun inBody => inBody.congr agree,
            fun inBody => inBody.congr fun name free => (agree name free).symm⟩
      · next different =>
          rw [AnnotatedIn, AnnotatedIn, Scope.enter_enter_comm fresh.1,
            ← Scope.enter_enter_comm different]
          exact inductionHypothesis fresh.2
  | tuple items inductionHypothesis =>
      simp only [nameOccurrences, nameOccurrencesInAll_eq_flatMap, List.mem_flatMap,
        not_exists, not_and] at fresh
      simp only [Term.rename, renameAll_eq_map, AnnotatedIn, allAnnotatedIn_iff_forall,
        List.forall_mem_map]
      exact forall₂_congr fun item member =>
        inductionHypothesis item member (fresh item member)
  | neg operand inductionHypothesis =>
      exact inductionHypothesis fresh
  | app _ _ firstHypothesis secondHypothesis
  | connect _ _ _ firstHypothesis secondHypothesis
  | equal _ _ firstHypothesis secondHypothesis
  | relate _ _ _ firstHypothesis secondHypothesis =>
      rw [nameOccurrences, List.mem_append, not_or] at fresh
      exact and_congr (firstHypothesis fresh.1) (secondHypothesis fresh.2)

/-- A term directly below the root may be exchanged for one annotated below the same binders. -/
theorem exists_hole
    {frame : Frame}
    (annotated : (frame.fill term).AnnotatedIn scope) :
    ∃ inner, term.AnnotatedIn inner ∧
      ∀ other : Term, other.AnnotatedIn inner → (frame.fill other).AnnotatedIn scope := by
  cases frame with
  | bind binder bound =>
      exact ⟨scope.enter bound, annotated, fun other inBody => inBody⟩
  | item before after =>
      simp only [Frame.fill, AnnotatedIn, allAnnotatedIn_iff_forall,
        List.forall_mem_append, List.forall_mem_cons] at annotated ⊢
      exact ⟨scope, annotated.2.1, fun other inOther =>
        ⟨annotated.1, inOther, annotated.2.2⟩⟩
  | neg =>
      exact ⟨scope, annotated, fun other inOther => inOther⟩
  | function | connectLeft | equalLeft | relateLeft =>
      exact ⟨scope, annotated.1, fun other inOther => ⟨inOther, annotated.2⟩⟩
  | argument | connectRight | equalRight | relateRight =>
      exact ⟨scope, annotated.2, fun other inOther => ⟨annotated.1, inOther⟩⟩

/-- A part may be exchanged for one that is annotated below the same binders. -/
theorem exists_part
    {context : Context}
    (annotated : (context.fill term).AnnotatedIn scope) :
    ∃ inner, term.AnnotatedIn inner ∧
      ∀ other : Term, other.AnnotatedIn inner → (context.fill other).AnnotatedIn scope := by
  induction context generalizing scope with
  | nil =>
      exact ⟨scope, annotated, fun other inOther => inOther⟩
  | cons frame rest inductionHypothesis =>
      obtain ⟨middle, inMiddle, replacedInFrame⟩ := exists_hole annotated
      obtain ⟨inner, inTerm, replacedInRest⟩ := inductionHypothesis inMiddle
      exact ⟨inner, inTerm, fun other inOther => replacedInFrame _ (replacedInRest other inOther)⟩

end AnnotatedIn

/-- Terms that differ in names only are annotated alike. -/
theorem AlphaEq.annotatedIn_iff
    {left right : Term}
    (equivalent : AlphaEq left right)
    (scope : Scope) :
    left.AnnotatedIn scope ↔ right.AnnotatedIn scope := by
  induction equivalent generalizing scope with
  | refl =>
      exact Iff.rfl
  | symm _ inductionHypothesis =>
      exact (inductionHypothesis scope).symm
  | trans _ _ firstHypothesis secondHypothesis =>
      exact (firstHypothesis scope).trans (secondHypothesis scope)
  | frame frame _ inductionHypothesis =>
      constructor
      · intro annotated
        obtain ⟨inner, inHole, replaced⟩ := annotated.exists_hole
        exact replaced _ ((inductionHypothesis inner).mp inHole)
      · intro annotated
        obtain ⟨inner, inHole, replaced⟩ := annotated.exists_hole
        exact replaced _ ((inductionHypothesis inner).mpr inHole)
  | rename binder bound new body fresh =>
      exact (AnnotatedIn.rename_iff fresh).symm

end Term

namespace Redex

variable {scope : Scope} {redex : Redex}

/-- Renaming the capturing binders of an annotated body changes names only. -/
theorem alphaEq_renamedBody_of_annotated
    (annotated : redex.body.AnnotatedIn scope) :
    AlphaEq redex.body redex.renamedBody.1 := by
  refine (redex.renamedBody_invariant
    (fun term => AlphaEq redex.body term ∧ term.AnnotatedIn scope) ?_
    ⟨.refl _, annotated⟩).1
  rintro context binder bound body new fresh ⟨equivalent, before⟩
  obtain ⟨inner, inBinder, replaced⟩ := before.exists_part
  have inBody : body.AnnotatedIn (inner.enter bound) := inBinder
  rw [inBody.substitute_var (by simp) new]
  exact ⟨equivalent.trans
      (AlphaEq.isCongruence.context context (.rename binder bound new body fresh)),
    replaced _ ((Term.AnnotatedIn.rename_iff fresh).mpr inBody)⟩

/-- An annotated redex and the one with its capturing binders renamed differ in names only. -/
theorem alphaEq_renamed_of_annotated
    (annotated : redex.toTerm.AnnotatedIn scope) :
    AlphaEq redex.toTerm redex.renamed.toTerm := by
  have inBody : redex.body.AnnotatedIn (scope.enter redex.bound) := annotated.1
  have bodies := alphaEq_renamedBody_of_annotated inBody
  exact (bodies.frame (.bind .lambda redex.bound)).frame (.function redex.argument)

end Redex

/-- A step that renames changes only names in an annotated term. -/
theorem Term.AnnotatedIn.alphaEq_of_alpha
    {scope : Scope}
    {term : Term}
    {step : Step}
    (annotated : term.AnnotatedIn scope)
    (stepped : term.step? = .ok (some step))
    (alpha : step.kind = .alpha) :
    AlphaEq term step.result := by
  obtain ⟨place, found, result, _⟩ := leftmostRedex?_of_alpha stepped alpha
  obtain ⟨whole, _⟩ := isLeftmost_of_leftmostRedex? found
  rw [← whole] at annotated
  obtain ⟨inner, inRedex, _⟩ := annotated.exists_part
  rw [← whole, result]
  exact AlphaEq.isCongruence.context place.context (Redex.alphaEq_renamed_of_annotated inRedex)

end TypedLambda
