import TypedLambda.Proofs.Meaning.ExchangedSisters
import TypedLambda.Proofs.Typing.TypedStep

namespace TypedLambda.Term

/-!
# Membership in an intersection

To say that something is in the intersection of two sets takes one step to the
statement that it is in both. The variable of the intersection occurs in
neither set, so no binder in them stands above it, whatever is free in the
argument, and putting in the argument changes nothing but its two occurrences.
-/

/-- Nothing is captured in a term where the name is not free. -/
theorem not_captures_of_absent
    {name : String}
    {argument term : Term}
    (absent : term.hasFree name = false) :
    ¬Captures name argument term := by
  rintro ⟨context, ty, shape, unbound, _⟩
  have free : term.hasFree name = true :=
    hasFree_iff_exists_occurrence.mpr ⟨context, ty, shape, unbound⟩
  rw [absent] at free
  cases free

/-- That something is in the intersection of two sets, as a redex. -/
def membership (element : Ty) (left right argument : Term) : Redex :=
  let name := freshName (left.nameOccurrences ++ right.nameOccurrences) "x"
  let common : Identifier := ⟨name, element⟩
  ⟨common, .connect .conjunction (.app left (.var common)) (.app right (.var common)), argument⟩

section membership

variable {element : Ty} {left right argument : Term}

@[simp] theorem toTerm_membership :
    (membership element left right argument).toTerm =
      .app (intersection element left right) argument :=
  rfl

/-- The argument cannot be captured by a binder in one of the sets. -/
theorem not_captures_membership :
    ¬(membership element left right argument).Captures := by
  obtain ⟨absentLeft, absentRight⟩ := hasFree_commonName left right
  simp [Redex.Captures, membership, captures_connect_iff, captures_app_iff,
    not_captures_of_absent absentLeft, not_captures_of_absent absentRight]

/-- Putting in the argument leaves both sets as they are. -/
theorem substitute_membership :
    substitute (membership element left right argument).bound.name
        (membership element left right argument).argument
        (membership element left right argument).body =
      .connect .conjunction (.app left argument) (.app right argument) := by
  obtain ⟨absentLeft, absentRight⟩ := hasFree_commonName left right
  simp [membership, substitute, substitute_eq_self absentLeft, substitute_eq_self absentRight]

end membership

/-- A redex without type variables whose parts fit together is contracted if nothing is captured. -/
theorem step?_toTerm_of_fits
    {redex : Redex}
    {domain range : Ty}
    (monomorphic : redex.toTerm.Monomorphic)
    (functionTyped : redex.function.typeOf = .ok (.fn domain range))
    (argumentTyped : redex.argument.typeOf = .ok domain)
    (safe : ¬redex.Captures) :
    redex.toTerm.step? =
      .ok (some ⟨.beta, substitute redex.bound.name redex.argument redex.body⟩) := by
  obtain ⟨ofFunction, ofArgument⟩ := monomorphic_app.mp monomorphic
  obtain ⟨groundDomain, groundRange⟩ :=
    Ty.ground_fn_iff.mp (((typeOf_eq_ok_iff ofFunction).mp functionTyped).ground ofFunction)
  have apartTyped :
      (redex.apartArgument (.fn domain range) domain).typeOf = .ok domain := by
    rw [Redex.apartArgument, ofArgument.instantiate_eq_self, argumentTyped]
  obtain ⟨contraction, contracted⟩ :=
    Redex.exists_contract_eq_ok functionTyped argumentTyped apartTyped
      (Ty.applyTo_domain groundDomain groundRange)
  have found : redex.toTerm.leftmostRedex? = some ⟨[], redex⟩ := rfl
  rcases Redex.contract_cases_of_monomorphic monomorphic contracted with
    ⟨captures, _⟩ | ⟨_, beta, result⟩
  · exact (safe captures).elim
  · simp [step?, found, contracted, beta, result, PlacedRedex.replace]

/--
Where two sister nodes without type variables are intersected, their meaning is a
set. Applied to any term without type variables that has the type of its
elements, it is contracted in one step, without renaming, whatever names occur:
the term is in the left set and in the right one, which are as they were.
-/
theorem step?_combine_intersected
    {left right : Term}
    {meaning : Meaning}
    (ofLeft : left.Monomorphic)
    (ofRight : right.Monomorphic)
    (combined : left.combine right = .ok meaning)
    (intersected : meaning.rule = .predicateModification) :
    ∃ element,
      meaning.term.typeOf = .ok (.predicate element) ∧
        ∀ argument : Term, argument.Monomorphic → argument.typeOf = .ok element →
          (Term.app meaning.term argument).step? =
            .ok (some ⟨.beta,
              .connect .conjunction (.app left argument) (.app right argument)⟩) := by
  obtain ⟨leftType, rightType, manner, leftTyped, rightTyped, decided, rfl⟩ :=
    combine_eq_ok_iff.mp combined
  have groundLeft : leftType.Ground :=
    ((typeOf_eq_ok_iff ofLeft).mp leftTyped).ground ofLeft
  have groundRight : rightType.Ground :=
    ((typeOf_eq_ok_iff ofRight).mp rightTyped).ground ofRight
  cases manner with
  | leftApplied | rightApplied =>
      cases intersected
  | intersected element =>
      obtain ⟨rfl, rfl⟩ :=
        Ty.eq_predicate_of_commonElement? groundLeft groundRight
          (Ty.commonElement?_of_manner? decided)
      have groundElement : element.Ground := (Ty.ground_fn_iff.mp groundLeft).1
      have typed : (intersection element left right).typeOf = .ok (.predicate element) :=
        typeOf_intersection groundElement leftTyped rightTyped
      refine ⟨element, typed, fun argument ofArgument argumentTyped => ?_⟩
      have monomorphic : (membership element left right argument).toTerm.Monomorphic := by
        simp [intersection, groundElement, ofLeft, ofRight, ofArgument]
      have stepped :=
        step?_toTerm_of_fits monomorphic typed argumentTyped not_captures_membership
      rw [substitute_membership] at stepped
      exact stepped

/-- The set λy.∃x.R(x,y). -/
def relatedToSome : Term :=
  .bind .lambda ⟨"y", .entity⟩
    (.bind .existential ⟨"x", .entity⟩
      (.app (.const ⟨"R", .predicate (.prod [.entity, .entity])⟩)
        (.tuple [.var ⟨"x", .entity⟩, .var ⟨"y", .entity⟩])))

/-- The set λx'.Q(x'). -/
def primedSet : Term :=
  .bind .lambda ⟨"x'", .entity⟩
    (.app (.const ⟨"Q", .predicate .entity⟩) (.var ⟨"x'", .entity⟩))

/-- Both x and x' are taken, and the argument x would be captured inside of the left set. -/
theorem step?_combine_intersected_boundInside :
    ∃ meaning,
      relatedToSome.combine primedSet = .ok meaning ∧
        relatedToSome.Monomorphic ∧
        primedSet.Monomorphic ∧
        meaning.rule = .predicateModification ∧
        meaning.term.typeOf = .ok (.predicate .entity) ∧
        (Term.app meaning.term (.var ⟨"x", .entity⟩)).step? =
          .ok (some ⟨.beta,
            .connect .conjunction (.app relatedToSome (.var ⟨"x", .entity⟩))
              (.app primedSet (.var ⟨"x", .entity⟩))⟩) := by
  have ofRelated : relatedToSome.Monomorphic := by
    decide
  have ofPrimed : primedSet.Monomorphic := by
    decide
  have relatedTyped : relatedToSome.typeOf = .ok (.predicate .entity) :=
    (typeOf_eq_ok_iff ofRelated).mpr (by
      simp [relatedToSome, binderRule_lambda_iff, binderRule_existential_iff, Ty.predicate])
  have primedTyped : primedSet.typeOf = .ok (.predicate .entity) :=
    (typeOf_eq_ok_iff ofPrimed).mpr (by
      simp [primedSet, binderRule_lambda_iff, Ty.predicate])
  have combined :=
    (combine_eq_ok_iff_of_typeOf relatedTyped primedTyped).mpr
      ⟨_, SyntaxTree.manner?_predicate_predicate, rfl⟩
  obtain ⟨element, typed, stepped⟩ := step?_combine_intersected ofRelated ofPrimed combined rfl
  have typedToo :
      (intersection .entity relatedToSome primedSet).typeOf = .ok (.predicate .entity) :=
    typeOf_intersection rfl relatedTyped primedTyped
  obtain rfl : element = .entity := by
    have same := typed.symm.trans typedToo
    simpa [Ty.predicate] using same
  exact ⟨_, combined, ofRelated, ofPrimed, rfl, typed, stepped _ (by decide) rfl⟩

end TypedLambda.Term
