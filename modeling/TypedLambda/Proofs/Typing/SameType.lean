import TypedLambda.Proofs.Alpha.Equivalence
import TypedLambda.Proofs.Ty.Application
import TypedLambda.Proofs.Typing.Annotation

namespace TypedLambda

/-!
# Terms of the same type

The type of a term is settled by the types of the terms below its root, with
type variables or without, so a part may be exchanged for another one of the
same type. An occurrence of a variable is such a part: types do not depend on
the names of variables, and a term of its type may take the place of a
variable, whatever binders it comes under.
-/

namespace Term

section Inversion

variable {first second : Term} {ty : Ty}

theorem typeOf_lambda_eq_ok_iff {bound : Identifier} :
    (bind .lambda bound first).typeOf = .ok ty ↔
      ∃ range, first.typeOf = .ok range ∧ .fn bound.ty range = ty := by
  simp only [typeOf, Outcome.bind_eq_ok_iff, Outcome.pure_eq_ok_iff]

theorem typeOf_app_eq_ok_iff :
    (app first second).typeOf = .ok ty ↔
      ∃ domain range argumentType alignment,
        first.typeOf = .ok (.fn domain range) ∧
          second.typeOf = .ok argumentType ∧
          domain.align ((argumentType.renameApart (.fn domain range)).apply argumentType) =
            .ok alignment ∧
          alignment.apply range = ty := by
  simp only [typeOf, Outcome.bind_eq_ok_iff, Outcome.pure_eq_ok_iff, Prod.exists,
    Ty.applyTo_eq_ok_iff]
  constructor
  · rintro ⟨_, ofFirst, argumentType, ofSecond, _, alignment,
      ⟨domain, range, rfl, aligned, applied⟩, rfl⟩
    exact ⟨domain, range, argumentType, alignment, ofFirst, ofSecond, aligned, applied⟩
  · rintro ⟨domain, range, argumentType, alignment, ofFirst, ofSecond, aligned, applied⟩
    exact ⟨_, ofFirst, argumentType, ofSecond, ty, alignment,
      ⟨domain, range, rfl, aligned, applied⟩, rfl⟩

/-- The quantifiers and the description demand a truth value. -/
theorem typeOf_bind_eq_ok_iff
    {binder : Binder}
    {bound : Identifier}
    (noAbstraction : binder ≠ .lambda) :
    (bind binder bound first).typeOf = .ok ty ↔
      (∃ inner, first.typeOf = .ok inner ∧ inner.demandTruth = .ok ()) ∧
        (if binder = .description then bound.ty else .truth) = ty := by
  cases binder with
  | lambda =>
      exact (noAbstraction rfl).elim
  | universal | existential | description =>
      simp only [typeOf, Outcome.bind_eq_ok_iff, Outcome.pure_eq_ok_iff]
      grind

theorem typeOf_neg_eq_ok_iff :
    (neg first).typeOf = .ok ty ↔
      (∃ inner, first.typeOf = .ok inner ∧ inner.demandTruth = .ok ()) ∧ .truth = ty := by
  simp only [typeOf, Outcome.bind_eq_ok_iff, Outcome.pure_eq_ok_iff]
  grind

theorem typeOf_tuple_cons_eq_ok_iff {items : List Term} :
    (tuple (first :: items)).typeOf = .ok ty ↔
      ∃ head factors,
        first.typeOf = .ok head ∧
          (tuple items).typeOf = .ok (.prod factors) ∧
          .prod (head :: factors) = ty := by
  simp only [typeOf, typesOf, Outcome.bind_eq_ok_iff, Outcome.pure_eq_ok_iff, Ty.prod.injEq]
  grind

theorem typeOf_connect_eq_ok_iff {connective : Connective} :
    (connect connective first second).typeOf = .ok ty ↔
      (∃ left, first.typeOf = .ok left ∧ left.demandTruth = .ok ()) ∧
        (∃ right, second.typeOf = .ok right ∧ right.demandTruth = .ok ()) ∧
        .truth = ty := by
  simp only [typeOf, Outcome.bind_eq_ok_iff, Outcome.pure_eq_ok_iff]
  grind

theorem typeOf_equal_eq_ok_iff :
    (equal first second).typeOf = .ok ty ↔
      (∃ left right,
        first.typeOf = .ok left ∧
          second.typeOf = .ok right ∧
          ∃ alignment, left.align right = .ok alignment) ∧
        .truth = ty := by
  simp only [typeOf, Outcome.bind_eq_ok_iff, Outcome.pure_eq_ok_iff]
  grind

theorem typeOf_relate_eq_ok_iff {relation : SetRelation} :
    (relate relation first second).typeOf = .ok ty ↔
      (∃ left right alignment,
        first.typeOf = .ok left ∧
          second.typeOf = .ok right ∧
          left.align right = .ok alignment ∧
          (alignment.apply left).element?.isSome = true) ∧
        .truth = ty := by
  simp only [typeOf, Outcome.bind_eq_ok_iff]
  constructor
  · rintro ⟨left, ofFirst, right, ofSecond, alignment, aligned, decided⟩
    split at decided
    · next found =>
        rw [Outcome.pure_eq_ok_iff] at decided
        exact ⟨⟨left, right, alignment, ofFirst, ofSecond, aligned, by simp [found]⟩, decided⟩
    · cases decided
  · rintro ⟨⟨left, right, alignment, ofFirst, ofSecond, aligned, isSet⟩, rfl⟩
    refine ⟨left, ofFirst, right, ofSecond, alignment, aligned, ?_⟩
    obtain ⟨element, found⟩ := Option.isSome_iff_exists.mp isSet
    simp [found]

end Inversion

/-- Two terms have the same type, or neither of them has one. -/
def SameType (left right : Term) : Prop :=
  ∀ ty, left.typeOf = .ok ty ↔ right.typeOf = .ok ty

namespace SameType

/-- Terms that have a type have the same one if it is that type. -/
theorem of_typeOf_eq
    {left right : Term}
    {ty : Ty}
    (ofLeft : left.typeOf = .ok ty)
    (ofRight : right.typeOf = .ok ty) :
    SameType left right := by
  intro other
  rw [ofLeft, ofRight]

/-- An item of a tuple may be exchanged. -/
theorem typesOf_item
    {left right : Term}
    (same : SameType left right)
    (before after : List Term)
    (types : List Ty) :
    typesOf (before ++ left :: after) = .ok types ↔
      typesOf (before ++ right :: after) = .ok types := by
  induction before generalizing types with
  | nil =>
      simp only [List.nil_append, typesOf, Outcome.bind_eq_ok_iff, same _]
  | cons head tail inductionHypothesis =>
      simp only [List.cons_append, typesOf, Outcome.bind_eq_ok_iff, inductionHypothesis]

/-- A term directly below the root may be exchanged. -/
theorem fill
    (frame : Frame)
    {left right : Term}
    (same : SameType left right) :
    SameType (frame.fill left) (frame.fill right) := by
  intro ty
  cases frame with
  | bind binder bound =>
      cases binder <;> simp only [Frame.fill, typeOf, Outcome.bind_eq_ok_iff, same _]
  | function | argument =>
      simp only [Frame.fill, typeOf_app_eq_ok_iff, same _]
  | item before after =>
      simp only [Frame.fill, typeOf, Outcome.bind_eq_ok_iff, same.typesOf_item]
  | neg =>
      simp only [Frame.fill, typeOf, Outcome.bind_eq_ok_iff, same _]
  | connectLeft | connectRight =>
      simp only [Frame.fill, typeOf_connect_eq_ok_iff, same _]
  | equalLeft | equalRight =>
      simp only [Frame.fill, typeOf_equal_eq_ok_iff, same _]
  | relateLeft | relateRight =>
      simp only [Frame.fill, typeOf_relate_eq_ok_iff, same _]

theorem isCongruence : IsCongruence SameType where
  refl _ _ := Iff.rfl
  symm same ty := (same ty).symm
  trans first second ty := (first ty).trans (second ty)
  frame := fill

end SameType

/-- Of a binder's variable only the type matters. -/
theorem SameType.bind_name
    (binder : Binder)
    (bound : Identifier)
    (new : String)
    (body : Term) :
    SameType (.bind binder bound body) (.bind binder ⟨new, bound.ty⟩ body) := by
  intro ty
  cases binder <;> simp only [typeOf]

/-- A term has the same type under another name for a variable. -/
theorem sameType_rename
    (old new : String)
    (term : Term) :
    SameType term (term.rename old new) := by
  induction term with
  | var identifier =>
      rw [rename]
      split
      · exact .of_typeOf_eq rfl rfl
      · exact SameType.isCongruence.refl _
  | const identifier =>
      exact SameType.isCongruence.refl _
  | bind binder bound body inductionHypothesis =>
      rw [rename]
      split
      · exact SameType.isCongruence.refl _
      · exact inductionHypothesis.fill (.bind binder bound)
  | tuple items inductionHypothesis =>
      rw [rename, renameAll_eq_map]
      refine SameType.isCongruence.tuple [] ?_
      rw [List.forall₂_map_right_iff, List.forall₂_same]
      exact inductionHypothesis
  | neg operand inductionHypothesis =>
      exact inductionHypothesis.fill .neg
  | app _ _ firstHypothesis secondHypothesis =>
      exact SameType.isCongruence.app firstHypothesis secondHypothesis
  | connect connective _ _ firstHypothesis secondHypothesis =>
      exact SameType.isCongruence.connect connective firstHypothesis secondHypothesis
  | equal _ _ firstHypothesis secondHypothesis =>
      exact SameType.isCongruence.equal firstHypothesis secondHypothesis
  | relate relation _ _ firstHypothesis secondHypothesis =>
      exact SameType.isCongruence.relate relation firstHypothesis secondHypothesis

/-- Terms that differ in the names of bound variables only have the same type. -/
theorem AlphaEq.sameType
    {left right : Term}
    (equivalent : AlphaEq left right) :
    SameType left right := by
  refine equivalent.least SameType.isCongruence fun binder bound new body _ => ?_
  exact SameType.isCongruence.trans
    ((sameType_rename bound.name new body).fill (.bind binder bound))
    (SameType.bind_name binder bound new _)

/-- A term of its type may take the place of a variable whose occurrences carry their type. -/
theorem AnnotatedIn.sameType_substitute
    {scope : Scope}
    {name : String}
    {ty : Ty}
    {replacement term : Term}
    (annotated : term.AnnotatedIn scope)
    (isBound : scope name = some ty)
    (ofReplacement : replacement.typeOf = .ok ty) :
    SameType (substitute name replacement term) term := by
  induction term generalizing scope with
  | var identifier =>
      rw [substitute]
      split
      · next same =>
          have carried : ty = identifier.ty := annotated ty (same ▸ isBound)
          exact .of_typeOf_eq ofReplacement (carried ▸ rfl)
      · exact SameType.isCongruence.refl _
  | const identifier =>
      exact SameType.isCongruence.refl _
  | bind binder bound body inductionHypothesis =>
      rw [substitute]
      split
      · exact SameType.isCongruence.refl _
      · next different =>
          have below : scope.enter bound name = some ty := by
            simp [Ne.symm different, isBound]
          exact (inductionHypothesis annotated below).fill (.bind binder bound)
  | tuple items inductionHypothesis =>
      simp only [AnnotatedIn, allAnnotatedIn_iff_forall] at annotated
      rw [substitute, substituteAll_eq_map]
      refine SameType.isCongruence.tuple [] ?_
      rw [List.forall₂_map_left_iff, List.forall₂_same]
      exact fun item member => inductionHypothesis item member (annotated item member) isBound
  | neg operand inductionHypothesis =>
      exact (inductionHypothesis annotated isBound).fill .neg
  | app _ _ firstHypothesis secondHypothesis =>
      exact SameType.isCongruence.app (firstHypothesis annotated.1 isBound)
        (secondHypothesis annotated.2 isBound)
  | connect connective _ _ firstHypothesis secondHypothesis =>
      exact SameType.isCongruence.connect connective (firstHypothesis annotated.1 isBound)
        (secondHypothesis annotated.2 isBound)
  | equal _ _ firstHypothesis secondHypothesis =>
      exact SameType.isCongruence.equal (firstHypothesis annotated.1 isBound)
        (secondHypothesis annotated.2 isBound)
  | relate relation _ _ firstHypothesis secondHypothesis =>
      exact SameType.isCongruence.relate relation (firstHypothesis annotated.1 isBound)
        (secondHypothesis annotated.2 isBound)

end Term

end TypedLambda
