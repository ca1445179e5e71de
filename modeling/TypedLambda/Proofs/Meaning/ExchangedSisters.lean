import TypedLambda.Proofs.Meaning.EarlyReduction
import TypedLambda.Proofs.Reordering.Decision
import TypedLambda.Proofs.Reordering.Rearrangement

namespace TypedLambda

/-!
# Exchanging sisters

Two types without variables cannot each be the domain of the other one, so it
does not matter which sister is tried as the function first. Two sets have
elements in common if they have the same type, and the names in both of them
decide what the variable of their intersection is called, in whatever order they
are looked at. So if the types of two sisters have no variables, exchanging the
sisters exchanges the operands of the conjunction in an intersection, and
nothing else. Inside the sisters there may be type variables all the same.
-/

namespace Manner

/-- The manner in which sisters are combined in the same way after they have been exchanged. -/
def exchanged : Manner → Manner
  | .leftApplied => .rightApplied
  | .rightApplied => .leftApplied
  | .intersected element => .intersected element

@[simp] theorem exchanged_rule (manner : Manner) :
    manner.exchanged.rule = manner.rule := by
  cases manner <;> rfl

/-- If one sister is applied to the other one, they make up the same after an exchange. -/
theorem exchanged_term_of_applied
    {manner : Manner}
    (applied : manner.rule = .functionApplication)
    (left right : Term) :
    manner.exchanged.term right left = manner.term left right := by
  cases manner with
  | leftApplied | rightApplied =>
      rfl
  | intersected element =>
      cases applied

end Manner

namespace Ty

variable {left right : Ty}

/-- What has an argument's type as its domain is no argument for it. -/
theorem accepts_eq_false_of_accepts
    (groundLeft : left.Ground)
    (groundRight : right.Ground)
    (accepts : left.accepts right = true) :
    right.accepts left = false := by
  rw [← Bool.not_eq_true, accepts_ground_iff groundRight groundLeft]
  rintro ⟨otherRange, rightIsFunction⟩
  obtain ⟨range, leftIsFunction⟩ := (accepts_ground_iff groundLeft groundRight).mp accepts
  have leftSize : left.size = right.size + range.size + 1 := congrArg size leftIsFunction
  have rightSize : right.size = left.size + otherRange.size + 1 := congrArg size rightIsFunction
  omega

/-- Types that call for an intersection have elements in common. -/
theorem commonElement?_of_manner?
    {element : Ty}
    (decided : left.manner? right = some (.intersected element)) :
    left.commonElement? right = some element := by
  unfold manner? at decided
  split at decided
  · cases decided
  · split at decided
    · cases decided
    · obtain ⟨_, found, same⟩ := Option.map_eq_some_iff.mp decided
      cases same
      exact found

/-- Exchanged types call for the exchanged manner. -/
theorem manner?_exchange
    (groundLeft : left.Ground)
    (groundRight : right.Ground) :
    right.manner? left = (left.manner? right).map Manner.exchanged := by
  have sameElement : right.commonElement? left = left.commonElement? right := by
    ext element
    rw [commonElement?_ground_eq_some_iff groundRight groundLeft,
      commonElement?_ground_eq_some_iff groundLeft groundRight, and_comm]
  unfold manner?
  cases accepts : left.accepts right with
  | true =>
      simp [accepts_eq_false_of_accepts groundLeft groundRight accepts, Manner.exchanged]
  | false =>
      cases acceptsToo : right.accepts left with
      | true =>
          simp [Manner.exchanged]
      | false =>
          simp [sameElement, Function.comp_def, Manner.exchanged]

end Ty

namespace Term

variable {left right : Term}

/-- The variable of an intersection has the same name after an exchange of the sets. -/
theorem rearranged_intersection
    (element : Ty)
    (left right : Term) :
    Rearranged (intersection element left right) (intersection element right left) := by
  unfold intersection
  rw [freshName_eq_of_perm List.perm_append_comm "x"]
  exact (Rearranged.commute .conjunction _ _ (by decide)).frame (.bind .lambda _)

/-- Whatever is inside of two sets, their intersection is a set of the same type. -/
theorem typeOf_intersection
    {element : Ty}
    (ground : element.Ground)
    (ofLeft : left.typeOf = .ok (.predicate element))
    (ofRight : right.typeOf = .ok (.predicate element)) :
    (intersection element left right).typeOf = .ok (.predicate element) := by
  have ofMember
      {set : Term}
      (ofSet : set.typeOf = .ok (.predicate element))
      (name : String) :
      (app set (.var ⟨name, element⟩)).typeOf = .ok .truth := by
    refine typeOf_app_eq_ok_iff.mpr ⟨element, .truth, element, .empty, ofSet, rfl, ?_, rfl⟩
    rw [ground.apply_eq_self]
    exact (Ty.align_ground_eq_ok_iff ground ground).mpr ⟨rfl, rfl⟩
  have truthful : Ty.truth.demandTruth = .ok () :=
    (Ty.demandTruth_ground_eq_ok_iff Ty.ground_truth).mpr rfl
  refine typeOf_lambda_eq_ok_iff.mpr ⟨.truth, ?_, rfl⟩
  exact typeOf_connect_eq_ok_iff.mpr
    ⟨⟨_, ofMember ofLeft _, truthful⟩, ⟨_, ofMember ofRight _, truthful⟩, rfl⟩

/--
The order of sisters does not matter if their types have no variables. They have
a meaning in both orders or in none, and both meanings come by the same rule. If
one sister is applied to the other one, the meanings are identical. If the
sisters are intersected, the meanings are alike up to the order of operands, and
they are sets of the type that both sisters have.
-/
theorem combine_exchanged
    {leftType rightType : Ty}
    (ofLeft : left.typeOf = .ok leftType)
    (ofRight : right.typeOf = .ok rightType)
    (groundLeft : leftType.Ground)
    (groundRight : rightType.Ground) :
    ((∃ meaning, left.combine right = .ok meaning) ↔
        ∃ exchanged, right.combine left = .ok exchanged) ∧
      ∀ meaning exchanged,
        left.combine right = .ok meaning → right.combine left = .ok exchanged →
          exchanged.rule = meaning.rule ∧
            (meaning.rule = .functionApplication → exchanged.term = meaning.term) ∧
            (meaning.rule = .predicateModification →
              meaning.term.reorderEquivalent exchanged.term = true ∧
                meaning.term.typeOf = .ok leftType ∧
                exchanged.term.typeOf = .ok leftType) := by
  simp only [combine_eq_ok_iff_of_typeOf ofLeft ofRight,
    combine_eq_ok_iff_of_typeOf ofRight ofLeft, Ty.manner?_exchange groundLeft groundRight]
  constructor
  · cases leftType.manner? rightType <;> simp
  · rintro meaning exchanged ⟨manner, decided, rfl⟩ ⟨otherManner, alsoDecided, rfl⟩
    rw [decided, Option.map_some, Option.some.injEq] at alsoDecided
    subst alsoDecided
    refine ⟨manner.exchanged_rule, fun applied => ?_, fun intersected => ?_⟩
    · exact Manner.exchanged_term_of_applied applied left right
    · cases manner with
      | leftApplied | rightApplied =>
          cases intersected
      | intersected element =>
          obtain ⟨rfl, rfl⟩ :=
            Ty.eq_predicate_of_commonElement? groundLeft groundRight
              (Ty.commonElement?_of_manner? decided)
          have groundElement : element.Ground := (Ty.ground_fn_iff.mp groundLeft).1
          exact ⟨(rearranged_intersection element left right).reordered.reorderEquivalent_eq_true,
            typeOf_intersection groundElement ofLeft ofRight,
            typeOf_intersection groundElement ofRight ofLeft⟩

/-- The set λx.P(x). -/
def plainSet : Term :=
  .bind .lambda ⟨"x", .entity⟩
    (.app (.const ⟨"P", .predicate .entity⟩) (.var ⟨"x", .entity⟩))

/-- The set λx.c = c, where c is of any type. -/
def polymorphicSet : Term :=
  .bind .lambda ⟨"x", .entity⟩ (.equal (.const ⟨"c", .var 'a'⟩) (.const ⟨"c", .var 'a'⟩))

/-- Both sets are intersected, with the same result up to order, whichever comes first. -/
theorem combine_exchanged_polymorphicSet :
    plainSet.typeOf = .ok (.predicate .entity) ∧
      polymorphicSet.typeOf = .ok (.predicate .entity) ∧
      (Ty.predicate .entity).Ground ∧
      ∃ meaning exchanged,
        plainSet.combine polymorphicSet = .ok meaning ∧
          polymorphicSet.combine plainSet = .ok exchanged ∧
          meaning.rule = .predicateModification ∧
          exchanged.rule = .predicateModification ∧
          meaning.term ≠ exchanged.term ∧
          meaning.term.reorderEquivalent exchanged.term = true ∧
          meaning.term.typeOf = .ok (.predicate .entity) ∧
          exchanged.term.typeOf = .ok (.predicate .entity) := by
  have ground : (Ty.predicate .entity).Ground := rfl
  have groundEntity : Ty.entity.Ground := rfl
  have ofPlain : plainSet.typeOf = .ok (.predicate .entity) := by
    refine typeOf_lambda_eq_ok_iff.mpr ⟨.truth, ?_, rfl⟩
    refine typeOf_app_eq_ok_iff.mpr ⟨.entity, .truth, .entity, .empty, rfl, rfl, ?_, rfl⟩
    exact (Ty.align_ground_eq_ok_iff groundEntity groundEntity).mpr ⟨rfl, rfl⟩
  have ofPolymorphic : polymorphicSet.typeOf = .ok (.predicate .entity) := by
    refine typeOf_lambda_eq_ok_iff.mpr ⟨.truth, ?_, rfl⟩
    exact typeOf_equal_eq_ok_iff.mpr
      ⟨⟨_, _, rfl, rfl, Ty.exists_align_eq_ok_iff.mpr ⟨.empty, rfl⟩⟩, rfl⟩
  have combined :=
    (combine_eq_ok_iff_of_typeOf ofPlain ofPolymorphic).mpr
      ⟨_, SyntaxTree.manner?_predicate_predicate, rfl⟩
  have alsoCombined :=
    (combine_eq_ok_iff_of_typeOf ofPolymorphic ofPlain).mpr
      ⟨_, SyntaxTree.manner?_predicate_predicate, rfl⟩
  obtain ⟨_, alike⟩ := combine_exchanged ofPlain ofPolymorphic ground ground
  obtain ⟨sameRule, _, reordered⟩ := alike _ _ combined alsoCombined
  refine ⟨ofPlain, ofPolymorphic, ground, _, _, combined, alsoCombined, rfl, sameRule, ?_,
    reordered rfl⟩
  decide +kernel

end Term

end TypedLambda
