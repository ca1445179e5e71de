import Mathlib.Logic.Function.Basic
import TypedLambda.Proofs.Typing.Simple

namespace TypedLambda

/-!
# Annotated terms

A variable carries its type where it occurs and where it is bound. In an
annotated term the two agree. A term that is annotated below given binders, has
no type variables and has a type is `Typed` there; for each form of terms it is
said what this takes of the terms below the root.
-/

/-- The types that the binders around a place give to the names they bind. -/
abbrev Scope := String → Option Ty

namespace Scope

/-- Nothing is bound. -/
def empty : Scope := fun _ => none

/-- The scope below one more binder. -/
def enter (scope : Scope) (bound : Identifier) : Scope :=
  Function.update scope bound.name (some bound.ty)

@[simp] theorem enter_apply
    (scope : Scope)
    (bound : Identifier)
    (name : String) :
    scope.enter bound name =
      if name = bound.name then some bound.ty else scope name := by
  simp [enter, Function.update_apply]

end Scope

namespace Term

mutual

/-- Every occurrence of a bound variable carries the type of its innermost binder. -/
def AnnotatedIn (scope : Scope) : Term → Prop
  | .var identifier => ∀ ty ∈ scope identifier.name, ty = identifier.ty
  | .const _ => True
  | .bind _ bound body => body.AnnotatedIn (scope.enter bound)
  | .app function argument => function.AnnotatedIn scope ∧ argument.AnnotatedIn scope
  | .tuple items => AllAnnotatedIn scope items
  | .neg operand => operand.AnnotatedIn scope
  | .connect _ left right => left.AnnotatedIn scope ∧ right.AnnotatedIn scope
  | .equal left right => left.AnnotatedIn scope ∧ right.AnnotatedIn scope
  | .relate _ left right => left.AnnotatedIn scope ∧ right.AnnotatedIn scope

/-- Every term of a list is annotated. -/
def AllAnnotatedIn (scope : Scope) : List Term → Prop
  | [] => True
  | term :: rest => term.AnnotatedIn scope ∧ AllAnnotatedIn scope rest

end

/-- Every occurrence of a variable that the term binds carries its binder's type. -/
def Annotated (term : Term) : Prop :=
  term.AnnotatedIn .empty

section Lists

attribute [local simp] AnnotatedIn AllAnnotatedIn

@[simp] theorem allAnnotatedIn_iff_forall
    {scope : Scope}
    {terms : List Term} :
    AllAnnotatedIn scope terms ↔ ∀ term ∈ terms, term.AnnotatedIn scope := by
  induction terms with
  | nil =>
      simp
  | cons term rest inductionHypothesis =>
      simp [inductionHypothesis]

end Lists

/-- What is bound matters for free variables only. -/
theorem AnnotatedIn.congr
    {scope other : Scope}
    {term : Term}
    (annotated : term.AnnotatedIn scope)
    (agree : ∀ name, term.hasFree name = true → scope name = other name) :
    term.AnnotatedIn other := by
  induction term generalizing scope other with
  | var identifier =>
      rw [AnnotatedIn, ← agree identifier.name (by simp [hasFree])]
      exact annotated
  | const identifier =>
      trivial
  | bind binder bound body inductionHypothesis =>
      apply inductionHypothesis annotated
      intro name free
      by_cases isBound : name = bound.name
      · simp [isBound]
      · simpa [isBound] using
          agree name (by simp [hasFree, Ne.symm isBound, free])
  | tuple items inductionHypothesis =>
      simp only [AnnotatedIn, allAnnotatedIn_iff_forall] at annotated ⊢
      intro item member
      refine inductionHypothesis item member (annotated item member) ?_
      intro name free
      refine agree name ?_
      rw [hasFree, anyHasFree_eq_any, List.any_eq_true]
      exact ⟨item, member, free⟩
  | neg operand inductionHypothesis =>
      exact inductionHypothesis annotated agree
  | app _ _ firstHypothesis secondHypothesis
  | connect _ _ _ firstHypothesis secondHypothesis
  | equal _ _ firstHypothesis secondHypothesis
  | relate _ _ _ firstHypothesis secondHypothesis =>
      exact ⟨firstHypothesis annotated.1 fun name free =>
          agree name (by simp [hasFree, free]),
        secondHypothesis annotated.2 fun name free =>
          agree name (by simp [hasFree, free])⟩

/-- The term has no type variables, is annotated below the given binders, and has the type. -/
structure Typed (scope : Scope) (term : Term) (ty : Ty) : Prop where
  monomorphic : term.Monomorphic
  annotated : term.AnnotatedIn scope
  hasType : term.HasType ty

namespace Typed

variable {scope : Scope} {first second : Term} {identifier : Identifier} {ty : Ty}

theorem iff_and {term : Term} :
    Typed scope term ty ↔
      term.Monomorphic ∧ term.AnnotatedIn scope ∧ term.HasType ty :=
  ⟨fun typed => ⟨typed.monomorphic, typed.annotated, typed.hasType⟩,
    fun ⟨monomorphic, annotated, hasType⟩ =>
      ⟨monomorphic, annotated, hasType⟩⟩

/-- The type of a typed term is found. -/
theorem typeOf_eq_ok {term : Term} (typed : Typed scope term ty) : term.typeOf = .ok ty :=
  (typeOf_eq_ok_iff typed.monomorphic).mpr typed.hasType

theorem var_iff :
    Typed scope (.var identifier) ty ↔
      identifier.ty.Ground ∧
        (∀ bound ∈ scope identifier.name, bound = identifier.ty) ∧
        identifier.ty = ty := by
  simp [iff_and, AnnotatedIn]

theorem const_iff :
    Typed scope (.const identifier) ty ↔
      identifier.ty.Ground ∧ identifier.ty = ty := by
  simp [iff_and, AnnotatedIn]

theorem bind_iff {binder : Binder} :
    Typed scope (.bind binder identifier first) ty ↔
      ∃ inner, identifier.ty.Ground ∧
        Typed (scope.enter identifier) first inner ∧
        BinderRule binder identifier.ty inner ty := by
  simp only [iff_and, AnnotatedIn, monomorphic_bind, HasType.bind_iff]
  grind

theorem app_iff :
    Typed scope (.app first second) ty ↔
      ∃ domain, Typed scope first (.fn domain ty) ∧ Typed scope second domain := by
  simp only [iff_and, AnnotatedIn, monomorphic_app, HasType.app_iff]
  grind

theorem tuple_iff {items : List Term} :
    Typed scope (.tuple items) ty ↔
      ∃ factors, List.Forall₂ (Typed scope) items factors ∧ .prod factors = ty := by
  have itemwise (factors : List Ty) :
      List.Forall₂ (Typed scope) items factors ↔
        (∀ item ∈ items, item.Monomorphic) ∧
          (∀ item ∈ items, item.AnnotatedIn scope) ∧
          List.Forall₂ HasType items factors := by
    rw [← List.forall₂_and_left, ← List.forall₂_and_left]
    simp only [← iff_and]
  simp only [itemwise, iff_and, AnnotatedIn, monomorphic_tuple,
    HasType.tuple_iff, allAnnotatedIn_iff_forall]
  grind

theorem neg_iff :
    Typed scope (.neg first) ty ↔ Typed scope first .truth ∧ .truth = ty := by
  simp [iff_and, AnnotatedIn, and_assoc]

theorem connect_iff {connective : Connective} :
    Typed scope (.connect connective first second) ty ↔
      Typed scope first .truth ∧ Typed scope second .truth ∧ .truth = ty := by
  simp only [iff_and, AnnotatedIn, monomorphic_connect, HasType.connect_iff]
  grind

theorem equal_iff :
    Typed scope (.equal first second) ty ↔
      ∃ side, Typed scope first side ∧ Typed scope second side ∧ .truth = ty := by
  simp only [iff_and, AnnotatedIn, monomorphic_equal, HasType.equal_iff]
  grind

theorem relate_iff {relation : SetRelation} :
    Typed scope (.relate relation first second) ty ↔
      ∃ element, Typed scope first (.predicate element) ∧
        Typed scope second (.predicate element) ∧ .truth = ty := by
  simp only [iff_and, AnnotatedIn, monomorphic_relate, HasType.relate_iff]
  grind

end Typed

end Term

end TypedLambda
