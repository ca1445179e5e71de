import Mathlib.Data.List.Forall2
import TypedLambda.Proofs.Term.Renaming
import TypedLambda.Proofs.Ty.Ground

namespace TypedLambda.Term

/-!
# Simple typing

Where types have no variables, the types of terms are those of the simply
typed lambda calculus: an application needs an argument of exactly the domain,
the sides of an equation need the same type, and operands have to be truth
values. `HasType` is this system, and the type computed for a term without
type variables is the one that it has there.
-/

/-- The term contains no type variables. -/
def Monomorphic (term : Term) : Prop :=
  ∀ identifier ∈ term.identifiers, identifier.ty.Ground

instance (term : Term) : Decidable term.Monomorphic :=
  inferInstanceAs (Decidable (∀ identifier ∈ term.identifiers, _))

section Monomorphic

variable {identifier : Identifier} {first second : Term}

@[simp] theorem monomorphic_var :
    (var identifier).Monomorphic ↔ identifier.ty.Ground := by
  simp [Monomorphic, identifiers]

@[simp] theorem monomorphic_const :
    (const identifier).Monomorphic ↔ identifier.ty.Ground := by
  simp [Monomorphic, identifiers]

@[simp] theorem monomorphic_bind {binder : Binder} :
    (bind binder identifier first).Monomorphic ↔
      identifier.ty.Ground ∧ first.Monomorphic :=
  List.forall_mem_cons

@[simp] theorem monomorphic_app :
    (app first second).Monomorphic ↔
      first.Monomorphic ∧ second.Monomorphic :=
  List.forall_mem_append

@[simp] theorem monomorphic_tuple {items : List Term} :
    (tuple items).Monomorphic ↔ ∀ item ∈ items, item.Monomorphic := by
  simp only [Monomorphic, identifiers, identifiersInAll_eq_flatMap,
    List.mem_flatMap]
  grind

@[simp] theorem monomorphic_neg :
    (neg first).Monomorphic ↔ first.Monomorphic :=
  Iff.rfl

@[simp] theorem monomorphic_connect {connective : Connective} :
    (connect connective first second).Monomorphic ↔
      first.Monomorphic ∧ second.Monomorphic :=
  List.forall_mem_append

@[simp] theorem monomorphic_equal :
    (equal first second).Monomorphic ↔
      first.Monomorphic ∧ second.Monomorphic :=
  List.forall_mem_append

@[simp] theorem monomorphic_relate {relation : SetRelation} :
    (relate relation first second).Monomorphic ↔
      first.Monomorphic ∧ second.Monomorphic :=
  List.forall_mem_append

end Monomorphic

/-- Instantiation leaves a term without type variables as it is. -/
theorem Monomorphic.instantiate_eq_self
    {term : Term}
    (monomorphic : term.Monomorphic)
    (substitution : Ty.Substitution) :
    term.instantiate substitution = term := by
  have unchanged
      {identifier : Identifier}
      (ground : identifier.ty.Ground) :
      identifier.instantiate substitution = identifier := by
    rw [Identifier.instantiate, ground.apply_eq_self]
  induction term with
  | var identifier =>
      rw [instantiate, unchanged (monomorphic_var.mp monomorphic)]
  | const identifier =>
      rw [instantiate, unchanged (monomorphic_const.mp monomorphic)]
  | bind binder bound body inductionHypothesis =>
      obtain ⟨groundBound, groundBody⟩ := monomorphic_bind.mp monomorphic
      rw [instantiate, unchanged groundBound, inductionHypothesis groundBody]
  | tuple items inductionHypothesis =>
      rw [monomorphic_tuple] at monomorphic
      have same : items.map (instantiate substitution) = items.map id :=
        List.map_congr_left fun item member =>
          inductionHypothesis item member (monomorphic item member)
      simpa [instantiate] using same
  | _ =>
      simp_all [instantiate]

/-- The type of a binder's variable, of its body, and of the whole. -/
inductive BinderRule : Binder → Ty → Ty → Ty → Prop where
  | lambda (domain range : Ty) : BinderRule .lambda domain range (.fn domain range)
  | universal (bound : Ty) : BinderRule .universal bound .truth .truth
  | existential (bound : Ty) : BinderRule .existential bound .truth .truth
  | description (bound : Ty) : BinderRule .description bound .truth bound

section BinderRule

variable {bound inner ty : Ty}

theorem binderRule_lambda_iff :
    BinderRule .lambda bound inner ty ↔ .fn bound inner = ty := by
  constructor
  · intro rule
    cases rule
    rfl
  · intro same
    subst same
    exact .lambda bound inner

theorem binderRule_universal_iff :
    BinderRule .universal bound inner ty ↔ inner = .truth ∧ .truth = ty := by
  constructor
  · intro rule
    cases rule
    exact ⟨rfl, rfl⟩
  · rintro ⟨rfl, rfl⟩
    exact .universal bound

theorem binderRule_existential_iff :
    BinderRule .existential bound inner ty ↔ inner = .truth ∧ .truth = ty := by
  constructor
  · intro rule
    cases rule
    exact ⟨rfl, rfl⟩
  · rintro ⟨rfl, rfl⟩
    exact .existential bound

theorem binderRule_description_iff :
    BinderRule .description bound inner ty ↔ inner = .truth ∧ bound = ty := by
  constructor
  · intro rule
    cases rule
    exact ⟨rfl, rfl⟩
  · rintro ⟨rfl, rfl⟩
    exact .description bound

end BinderRule

/-- The simply typed system. -/
inductive HasType : Term → Ty → Prop where
  | var (identifier : Identifier) : HasType (.var identifier) identifier.ty
  | const (identifier : Identifier) : HasType (.const identifier) identifier.ty
  | bind
      {binder : Binder}
      {bound : Identifier}
      {body : Term}
      {inner ty : Ty}
      (inBody : HasType body inner)
      (rule : BinderRule binder bound.ty inner ty) :
      HasType (.bind binder bound body) ty
  | app
      {function argument : Term}
      {domain range : Ty}
      (ofFunction : HasType function (.fn domain range))
      (ofArgument : HasType argument domain) :
      HasType (.app function argument) range
  | tuple
      {items : List Term}
      {factors : List Ty}
      (ofItems : List.Forall₂ HasType items factors) :
      HasType (.tuple items) (.prod factors)
  | neg
      {operand : Term}
      (ofOperand : HasType operand .truth) :
      HasType (.neg operand) .truth
  | connect
      {connective : Connective}
      {left right : Term}
      (ofLeft : HasType left .truth)
      (ofRight : HasType right .truth) :
      HasType (.connect connective left right) .truth
  | equal
      {left right : Term}
      {ty : Ty}
      (ofLeft : HasType left ty)
      (ofRight : HasType right ty) :
      HasType (.equal left right) .truth
  | relate
      {relation : SetRelation}
      {left right : Term}
      {element : Ty}
      (ofLeft : HasType left (.predicate element))
      (ofRight : HasType right (.predicate element)) :
      HasType (.relate relation left right) .truth

namespace HasType

variable {first second : Term} {identifier : Identifier} {ty : Ty}

@[simp] theorem var_iff :
    HasType (.var identifier) ty ↔ identifier.ty = ty := by
  constructor
  · intro typed
    cases typed
    rfl
  · intro same
    subst same
    exact .var identifier

@[simp] theorem const_iff :
    HasType (.const identifier) ty ↔ identifier.ty = ty := by
  constructor
  · intro typed
    cases typed
    rfl
  · intro same
    subst same
    exact .const identifier

@[simp] theorem bind_iff {binder : Binder} :
    HasType (.bind binder identifier first) ty ↔
      ∃ inner, HasType first inner ∧ BinderRule binder identifier.ty inner ty := by
  constructor
  · intro typed
    cases typed
    exact ⟨_, ‹_›, ‹_›⟩
  · rintro ⟨inner, inBody, rule⟩
    exact .bind inBody rule

@[simp] theorem app_iff :
    HasType (.app first second) ty ↔
      ∃ domain, HasType first (.fn domain ty) ∧ HasType second domain := by
  constructor
  · intro typed
    cases typed
    exact ⟨_, ‹_›, ‹_›⟩
  · rintro ⟨domain, ofFunction, ofArgument⟩
    exact .app ofFunction ofArgument

@[simp] theorem tuple_iff {items : List Term} :
    HasType (.tuple items) ty ↔
      ∃ factors, List.Forall₂ HasType items factors ∧ .prod factors = ty := by
  constructor
  · intro typed
    cases typed
    exact ⟨_, ‹_›, rfl⟩
  · rintro ⟨factors, ofItems, rfl⟩
    exact .tuple ofItems

@[simp] theorem neg_iff :
    HasType (.neg first) ty ↔ HasType first .truth ∧ .truth = ty := by
  constructor
  · intro typed
    cases typed
    exact ⟨‹_›, rfl⟩
  · rintro ⟨ofOperand, rfl⟩
    exact .neg ofOperand

@[simp] theorem connect_iff {connective : Connective} :
    HasType (.connect connective first second) ty ↔
      HasType first .truth ∧ HasType second .truth ∧ .truth = ty := by
  constructor
  · intro typed
    cases typed
    exact ⟨‹_›, ‹_›, rfl⟩
  · rintro ⟨ofLeft, ofRight, rfl⟩
    exact .connect ofLeft ofRight

@[simp] theorem equal_iff :
    HasType (.equal first second) ty ↔
      ∃ side, HasType first side ∧ HasType second side ∧ .truth = ty := by
  constructor
  · intro typed
    cases typed
    exact ⟨_, ‹_›, ‹_›, rfl⟩
  · rintro ⟨side, ofLeft, ofRight, rfl⟩
    exact .equal ofLeft ofRight

@[simp] theorem relate_iff {relation : SetRelation} :
    HasType (.relate relation first second) ty ↔
      ∃ element, HasType first (.predicate element) ∧
        HasType second (.predicate element) ∧ .truth = ty := by
  constructor
  · intro typed
    cases typed
    exact ⟨_, ‹_›, ‹_›, rfl⟩
  · rintro ⟨element, ofLeft, ofRight, rfl⟩
    exact .relate ofLeft ofRight

/-- A term without type variables has a type without variables. -/
theorem ground
    {term : Term}
    {ty : Ty}
    (typed : HasType term ty)
    (monomorphic : term.Monomorphic) :
    ty.Ground := by
  induction term generalizing ty with
  | bind binder bound body inductionHypothesis =>
      rw [monomorphic_bind] at monomorphic
      obtain ⟨inner, inBody, rule⟩ := bind_iff.mp typed
      have groundInner := inductionHypothesis inBody monomorphic.2
      cases rule with
      | lambda =>
          exact Ty.ground_fn_iff.mpr ⟨monomorphic.1, groundInner⟩
      | universal =>
          exact groundInner
      | existential =>
          exact groundInner
      | description =>
          exact monomorphic.1
  | app function argument functionHypothesis =>
      obtain ⟨domain, ofFunction, _⟩ := app_iff.mp typed
      rw [monomorphic_app] at monomorphic
      exact (Ty.ground_fn_iff.mp
        (functionHypothesis ofFunction monomorphic.1)).2
  | tuple items inductionHypothesis =>
      obtain ⟨factors, ofItems, rfl⟩ := tuple_iff.mp typed
      rw [monomorphic_tuple] at monomorphic
      rw [Ty.ground_prod_iff]
      intro factor member
      obtain ⟨index, inRange, rfl⟩ := List.getElem_of_mem member
      obtain ⟨sameLength, pairwise⟩ := List.forall₂_iff_get.mp ofItems
      have inItems : index < items.length := sameLength ▸ inRange
      have isItem : items[index] ∈ items := List.getElem_mem inItems
      exact inductionHypothesis _ isItem
        (pairwise index inItems inRange) (monomorphic _ isItem)
  | var identifier =>
      rw [var_iff] at typed
      exact typed ▸ monomorphic_var.mp monomorphic
  | const identifier =>
      rw [const_iff] at typed
      exact typed ▸ monomorphic_const.mp monomorphic
  | neg | connect | equal | relate =>
      cases typed
      exact Ty.ground_truth

end HasType

/-- A sequence of terms has the types that its terms have one by one. -/
theorem typesOf_eq_ok_iff
    {items : List Term}
    (inItem :
      ∀ item ∈ items, ∀ ty, item.typeOf = .ok ty ↔ HasType item ty)
    {factors : List Ty} :
    typesOf items = .ok factors ↔ List.Forall₂ HasType items factors := by
  induction items generalizing factors with
  | nil =>
      simp [typesOf, eq_comm]
  | cons head tail inductionHypothesis =>
      rw [List.forall_mem_cons] at inItem
      simp only [typesOf, Outcome.bind_eq_ok_iff, Outcome.pure_eq_ok_iff,
        List.forall₂_cons_left_iff, inItem.1, inductionHypothesis inItem.2]
      grind

/-- A demand for a truth value is met by terms of that type. -/
theorem demandTruth_bind_eq_ok_iff
    {operand : Term}
    (monomorphic : operand.Monomorphic)
    (typed : ∀ ty, operand.typeOf = .ok ty ↔ HasType operand ty)
    {rest : Except TypeError Ty}
    {ty : Ty} :
    (do (← operand.typeOf).demandTruth; rest) = .ok ty ↔
      HasType operand .truth ∧ rest = .ok ty := by
  simp only [Outcome.bind_eq_ok_iff, typed]
  constructor
  · rintro ⟨found, ofOperand, ⟨⟩, demanded, rested⟩
    rw [Ty.demandTruth_ground_eq_ok_iff (ofOperand.ground monomorphic)] at demanded
    exact ⟨demanded ▸ ofOperand, rested⟩
  · rintro ⟨ofOperand, rested⟩
    have demanded :=
      (Ty.demandTruth_ground_eq_ok_iff Ty.ground_truth).mpr rfl
    exact ⟨.truth, ofOperand, (), demanded, rested⟩

/-- Without type variables the computed type is the one in the simply typed system. -/
theorem typeOf_eq_ok_iff
    {term : Term}
    (monomorphic : term.Monomorphic)
    {ty : Ty} :
    term.typeOf = .ok ty ↔ HasType term ty := by
  induction term generalizing ty with
  | var identifier =>
      simp [typeOf]
  | const identifier =>
      simp [typeOf]
  | bind binder bound body inductionHypothesis =>
      rw [monomorphic_bind] at monomorphic
      have ofBody (range : Ty) : body.typeOf = .ok range ↔ HasType body range :=
        inductionHypothesis monomorphic.2
      rw [HasType.bind_iff]
      cases binder with
      | lambda =>
          simp only [typeOf, Outcome.bind_eq_ok_iff, ofBody,
            Outcome.pure_eq_ok_iff, binderRule_lambda_iff]
      | universal =>
          simp only [typeOf, demandTruth_bind_eq_ok_iff monomorphic.2 ofBody,
            Outcome.pure_eq_ok_iff, binderRule_universal_iff]
          grind
      | existential =>
          simp only [typeOf, demandTruth_bind_eq_ok_iff monomorphic.2 ofBody,
            Outcome.pure_eq_ok_iff, binderRule_existential_iff]
          grind
      | description =>
          simp only [typeOf, demandTruth_bind_eq_ok_iff monomorphic.2 ofBody,
            Outcome.pure_eq_ok_iff, binderRule_description_iff]
          grind
  | app function argument functionHypothesis argumentHypothesis =>
      rw [monomorphic_app] at monomorphic
      simp only [typeOf, Outcome.bind_eq_ok_iff,
        functionHypothesis monomorphic.1, argumentHypothesis monomorphic.2,
        Outcome.pure_eq_ok_iff, HasType.app_iff]
      constructor
      · rintro ⟨functionType, ofFunction, domain, ofArgument,
          ⟨range, alignment⟩, applied, rfl⟩
        rw [Ty.applyTo_ground_eq_ok_iff (ofFunction.ground monomorphic.1)
          (ofArgument.ground monomorphic.2)] at applied
        obtain ⟨rfl, _⟩ := applied
        exact ⟨domain, ofFunction, ofArgument⟩
      · rintro ⟨domain, ofFunction, ofArgument⟩
        have applied :
            (Ty.fn domain ty).applyTo domain function = .ok (ty, .empty) :=
          (Ty.applyTo_ground_eq_ok_iff (ofFunction.ground monomorphic.1)
            (ofArgument.ground monomorphic.2)).mpr ⟨rfl, rfl⟩
        exact ⟨_, ofFunction, domain, ofArgument, _, applied, rfl⟩
  | tuple items inductionHypothesis =>
      rw [monomorphic_tuple] at monomorphic
      have ofItems {factors : List Ty} :
          typesOf items = .ok factors ↔ List.Forall₂ HasType items factors :=
        typesOf_eq_ok_iff fun item member _ =>
          inductionHypothesis item member (monomorphic item member)
      simp only [typeOf, Outcome.bind_eq_ok_iff, ofItems,
        Outcome.pure_eq_ok_iff, HasType.tuple_iff]
  | neg operand inductionHypothesis =>
      rw [monomorphic_neg] at monomorphic
      have ofOperand (ty : Ty) : operand.typeOf = .ok ty ↔ HasType operand ty :=
        inductionHypothesis monomorphic
      simp only [typeOf, demandTruth_bind_eq_ok_iff monomorphic ofOperand,
        Outcome.pure_eq_ok_iff, HasType.neg_iff]
  | connect connective left right leftHypothesis rightHypothesis =>
      rw [monomorphic_connect] at monomorphic
      have ofLeft (ty : Ty) : left.typeOf = .ok ty ↔ HasType left ty :=
        leftHypothesis monomorphic.1
      have ofRight (ty : Ty) : right.typeOf = .ok ty ↔ HasType right ty :=
        rightHypothesis monomorphic.2
      simp only [typeOf, demandTruth_bind_eq_ok_iff monomorphic.1 ofLeft,
        demandTruth_bind_eq_ok_iff monomorphic.2 ofRight,
        Outcome.pure_eq_ok_iff, HasType.connect_iff]
  | equal left right leftHypothesis rightHypothesis =>
      rw [monomorphic_equal] at monomorphic
      simp only [typeOf, Outcome.bind_eq_ok_iff, leftHypothesis monomorphic.1,
        rightHypothesis monomorphic.2, Outcome.pure_eq_ok_iff, HasType.equal_iff]
      constructor
      · rintro ⟨side, ofLeft, other, ofRight, alignment, aligned, rfl⟩
        rw [Ty.align_ground_eq_ok_iff (ofLeft.ground monomorphic.1)
          (ofRight.ground monomorphic.2)] at aligned
        obtain ⟨rfl, _⟩ := aligned
        exact ⟨side, ofLeft, ofRight, rfl⟩
      · rintro ⟨side, ofLeft, ofRight, rfl⟩
        have aligned :=
          (Ty.align_ground_eq_ok_iff (ofLeft.ground monomorphic.1)
            (ofRight.ground monomorphic.2)).mpr ⟨rfl, rfl⟩
        exact ⟨side, ofLeft, side, ofRight, _, aligned, rfl⟩
  | relate relation left right leftHypothesis rightHypothesis =>
      rw [monomorphic_relate] at monomorphic
      simp only [typeOf, Outcome.bind_eq_ok_iff, leftHypothesis monomorphic.1,
        rightHypothesis monomorphic.2, HasType.relate_iff]
      constructor
      · rintro ⟨side, ofLeft, other, ofRight, alignment, aligned, decided⟩
        have ground := ofLeft.ground monomorphic.1
        rw [Ty.align_ground_eq_ok_iff ground
          (ofRight.ground monomorphic.2)] at aligned
        obtain ⟨rfl, _⟩ := aligned
        rw [ground.apply_eq_self] at decided
        split at decided
        · next element found =>
            rw [Ty.element?_ground_eq_some_iff ground] at found
            subst found
            exact ⟨element, ofLeft, ofRight, by simpa using decided⟩
        · cases decided
      · rintro ⟨element, ofLeft, ofRight, rfl⟩
        have ground := ofLeft.ground monomorphic.1
        have aligned :=
          (Ty.align_ground_eq_ok_iff ground ground).mpr ⟨rfl, rfl⟩
        have found : (Ty.predicate element).element? = some element :=
          (Ty.element?_ground_eq_some_iff ground).mpr rfl
        refine ⟨_, ofLeft, _, ofRight, _, aligned, ?_⟩
        simp [ground.apply_eq_self, found]

/--
Typing by unification is simple typing where there are no type variables: the
computed type is the one that the term has in the simply typed system, there is
none if it has none there, and a computed type has no variables either.
-/
theorem typeOf_simplyTyped
    {term : Term}
    (monomorphic : term.Monomorphic) :
    (∀ ty, term.typeOf = .ok ty ↔ HasType term ty) ∧
      ∀ ty, term.typeOf = .ok ty → ty.Ground := by
  refine ⟨fun ty => typeOf_eq_ok_iff monomorphic, fun ty typed => ?_⟩
  exact ((typeOf_eq_ok_iff monomorphic).mp typed).ground monomorphic

/-- The statement λy.R(y,ιz.z = y) ⊆ P about a constant P of the given type. -/
def describedInclusion (ty : Ty) : Term :=
  .relate .subset
    (.bind .lambda ⟨"y", .entity⟩
      (.app (.const ⟨"R", .predicate (.prod [.entity, .entity])⟩)
        (.tuple [.var ⟨"y", .entity⟩,
          .bind .description ⟨"z", .entity⟩
            (.equal (.var ⟨"z", .entity⟩) (.var ⟨"y", .entity⟩))])))
    (.const ⟨"P", ty⟩)

/-- A set of individuals is included in one of individuals, not in one of sets of them. -/
theorem typeOf_simplyTyped_inclusions :
    (describedInclusion (.predicate .entity)).Monomorphic ∧
      (describedInclusion (.predicate .entity)).typeOf = .ok .truth ∧
      Ty.truth.Ground ∧
      (describedInclusion (.predicate (.predicate .entity))).Monomorphic ∧
      ∀ ty, (describedInclusion (.predicate (.predicate .entity))).typeOf ≠ .ok ty := by
  have ofSet : (describedInclusion (.predicate .entity)).Monomorphic := by
    decide
  have ofSets : (describedInclusion (.predicate (.predicate .entity))).Monomorphic := by
    decide
  obtain ⟨agrees, ground⟩ := typeOf_simplyTyped ofSet
  have typed : (describedInclusion (.predicate .entity)).typeOf = .ok .truth :=
    (agrees .truth).mpr (by
      simp [describedInclusion, binderRule_lambda_iff, binderRule_description_iff,
        Ty.predicate])
  refine ⟨ofSet, typed, ground .truth typed, ofSets, fun ty typedToo => ?_⟩
  have impossible :
      HasType (describedInclusion (.predicate (.predicate .entity))) ty :=
    ((typeOf_simplyTyped ofSets).1 ty).mp typedToo
  simp [describedInclusion, binderRule_lambda_iff, Ty.predicate, Ty.entity] at impossible

end TypedLambda.Term
