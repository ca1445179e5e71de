import TypedLambda.Proofs.Conversion.FreeNames
import TypedLambda.Proofs.Meaning.Combination
import TypedLambda.Proofs.Nameless.Confluence
import TypedLambda.Proofs.Nameless.NamedContraction
import TypedLambda.Proofs.Typing.Substitution

namespace TypedLambda

/-!
# Manners of combination

In which way two sisters are combined is decided by their types alone: the one
is applied to the other, or they are intersected. Without type variables the
types also decide which type the meaning has. In whatever way it is built, the
meaning can be reduced as its parts can, and it has no other free variables
than they have.
-/

open Relation (ReflTransGen)

/-- In which way two sisters are combined. -/
inductive Manner where
  /-- The left one is applied to the right one. -/
  | leftApplied
  /-- The right one is applied to the left one. -/
  | rightApplied
  /-- Two sets of things of a type are intersected. -/
  | intersected (element : Ty)

namespace Manner

/-- The rule that this falls under. -/
def rule : Manner → Rule
  | .leftApplied => .functionApplication
  | .rightApplied => .functionApplication
  | .intersected _ => .predicateModification

/-- What the sisters make up. -/
def term (left right : Term) : Manner → Term
  | .leftApplied => .app left right
  | .rightApplied => .app right left
  | .intersected element => .intersection element left right

end Manner

/-- The manner that two types call for. -/
def Ty.manner? (left right : Ty) : Option Manner :=
  if left.accepts right then
    some .leftApplied
  else if right.accepts left then
    some .rightApplied
  else
    (left.commonElement? right).map .intersected

namespace Term

/-- Two sisters are combined in the manner that their types call for. -/
theorem combine_eq_ok_iff
    {left right : Term}
    {meaning : Meaning} :
    left.combine right = .ok meaning ↔
      ∃ leftType rightType manner,
        left.typeOf = .ok leftType ∧
          right.typeOf = .ok rightType ∧
          leftType.manner? rightType = some manner ∧
          ⟨manner.rule, manner.term left right⟩ = meaning := by
  constructor
  · intro combined
    obtain ⟨leftType, rightType, ofLeft, ofRight, decided⟩ := combine_cases combined
    rcases decided with ⟨accepts, rfl⟩ | ⟨refuses, accepts, rfl⟩ | ⟨refuses, refusesToo, found⟩
    · exact ⟨_, _, .leftApplied, ofLeft, ofRight, by simp [Ty.manner?, accepts], rfl⟩
    · exact ⟨_, _, .rightApplied, ofLeft, ofRight, by simp [Ty.manner?, refuses, accepts], rfl⟩
    · obtain ⟨element, found, rfl⟩ := found
      exact ⟨_, _, .intersected element, ofLeft, ofRight,
        by simp [Ty.manner?, refuses, refusesToo, found], rfl⟩
  · rintro ⟨leftType, rightType, manner, ofLeft, ofRight, decided, rfl⟩
    simp only [combine, Outcome.bind_eq_ok_iff, Outcome.mapError_eq_ok_iff]
    refine ⟨leftType, ofLeft, rightType, ofRight, ?_⟩
    unfold Ty.manner? at decided
    by_cases accepts : leftType.accepts rightType = true
    · rw [if_pos accepts] at decided ⊢
      cases decided
      rfl
    · rw [if_neg accepts] at decided ⊢
      by_cases acceptsToo : rightType.accepts leftType = true
      · rw [if_pos acceptsToo] at decided ⊢
        cases decided
        rfl
      · rw [if_neg acceptsToo] at decided ⊢
        obtain ⟨element, found, rfl⟩ := Option.map_eq_some_iff.mp decided
        rw [found]
        rfl

/-- Which manner that is does not depend on the terms otherwise. -/
theorem combine_eq_ok_iff_of_typeOf
    {left right : Term}
    {leftType rightType : Ty}
    {meaning : Meaning}
    (ofLeft : left.typeOf = .ok leftType)
    (ofRight : right.typeOf = .ok rightType) :
    left.combine right = .ok meaning ↔
      ∃ manner,
        leftType.manner? rightType = some manner ∧
          ⟨manner.rule, manner.term left right⟩ = meaning := by
  simp [combine_eq_ok_iff, ofLeft, ofRight]

/-- The same for terms that have their types in a scope. -/
theorem Typed.combine_eq_ok_iff
    {scope : Scope}
    {left right : Term}
    {leftType rightType : Ty}
    {meaning : Meaning}
    (ofLeft : Typed scope left leftType)
    (ofRight : Typed scope right rightType) :
    left.combine right = .ok meaning ↔
      ∃ manner,
        leftType.manner? rightType = some manner ∧
          ⟨manner.rule, manner.term left right⟩ = meaning :=
  combine_eq_ok_iff_of_typeOf ofLeft.typeOf_eq_ok ofRight.typeOf_eq_ok

end Term

section Ground

variable {leftType rightType : Ty}

/-- Without type variables, a function accepts what has the type of its domain. -/
theorem Ty.accepts_ground_iff
    (groundLeft : leftType.Ground)
    (groundRight : rightType.Ground) :
    leftType.accepts rightType = true ↔ ∃ range, leftType = .fn rightType range := by
  rw [accepts_iff, groundRight.apply_eq_self]
  constructor
  · rintro ⟨domain, range, alignment, rfl, aligned⟩
    obtain ⟨rfl, _⟩ :=
      (align_ground_eq_ok_iff (ground_fn_iff.mp groundLeft).1 groundRight).mp aligned
    exact ⟨range, rfl⟩
  · rintro ⟨range, rfl⟩
    exact ⟨rightType, range, .empty, rfl,
      (align_ground_eq_ok_iff groundRight groundRight).mpr ⟨rfl, rfl⟩⟩

/-- Without type variables, only sets of the same things have elements in common. -/
theorem Ty.eq_predicate_of_commonElement?
    {element : Ty}
    (groundLeft : leftType.Ground)
    (groundRight : rightType.Ground)
    (found : leftType.commonElement? rightType = some element) :
    leftType = .predicate element ∧ rightType = .predicate element := by
  obtain ⟨leftDomain, leftRange, rightDomain, rightRange, alignment, rfl, rfl,
    leftTruthful, rightTruthful, aligned, rfl⟩ := commonElement?_eq_some_iff.mp found
  rw [ground_fn_iff] at groundLeft groundRight
  rw [aligns_ground_iff ground_truth groundLeft.2] at leftTruthful
  rw [aligns_ground_iff ground_truth groundRight.2] at rightTruthful
  obtain ⟨rfl, _⟩ := (align_ground_eq_ok_iff groundLeft.1 groundRight.1).mp aligned
  subst leftTruthful rightTruthful
  rw [groundLeft.1.apply_eq_self]
  exact ⟨rfl, rfl⟩

/-- Without type variables, two types have the elements in common of which both are sets. -/
theorem Ty.commonElement?_ground_eq_some_iff
    {element : Ty}
    (groundLeft : leftType.Ground)
    (groundRight : rightType.Ground) :
    leftType.commonElement? rightType = some element ↔
      leftType = .predicate element ∧ rightType = .predicate element := by
  constructor
  · exact eq_predicate_of_commonElement? groundLeft groundRight
  · rintro ⟨rfl, rfl⟩
    obtain ⟨groundElement, _⟩ := ground_fn_iff.mp groundLeft
    exact commonElement?_eq_some_iff.mpr
      ⟨_, _, _, _, .empty, rfl, rfl, truth_aligns_truth, truth_aligns_truth,
        (align_ground_eq_ok_iff groundElement groundElement).mpr ⟨rfl, rfl⟩,
        groundElement.apply_eq_self _⟩

end Ground

namespace Term

/-- The name of an intersection's variable occurs in neither set. -/
theorem hasFree_commonName
    (left right : Term) :
    left.hasFree (freshName (left.nameOccurrences ++ right.nameOccurrences) "x") = false ∧
      right.hasFree (freshName (left.nameOccurrences ++ right.nameOccurrences) "x") = false := by
  have fresh := freshName_notMem (left.nameOccurrences ++ right.nameOccurrences) "x"
  rw [List.mem_append, not_or] at fresh
  simp only [← Bool.not_eq_true]
  exact ⟨fun free => fresh.1 (mem_nameOccurrences_of_hasFree free),
    fun free => fresh.2 (mem_nameOccurrences_of_hasFree free)⟩

/-- The intersection of two sets of things of a type is such a set. -/
theorem Typed.intersection
    {scope : Scope}
    {left right : Term}
    {element : Ty}
    (ofLeft : Typed scope left (.predicate element))
    (ofRight : Typed scope right (.predicate element)) :
    Typed scope (Term.intersection element left right) (.predicate element) := by
  obtain ⟨absentLeft, absentRight⟩ := hasFree_commonName left right
  have groundElement : element.Ground :=
    (Ty.ground_fn_iff.mp (ofLeft.hasType.ground ofLeft.monomorphic)).1
  unfold Term.intersection
  generalize freshName _ "x" = name at absentLeft absentRight
  have ofVariable : Typed (scope.enter ⟨name, element⟩) (.var ⟨name, element⟩) element :=
    var_iff.mpr ⟨groundElement, by simp, rfl⟩
  have inBody :
      Typed (scope.enter ⟨name, element⟩)
        (.connect .conjunction (.app left (.var ⟨name, element⟩))
          (.app right (.var ⟨name, element⟩))) .truth :=
    connect_iff.mpr ⟨app_iff.mpr ⟨element, ofLeft.enter absentLeft, ofVariable⟩,
      app_iff.mpr ⟨element, ofRight.enter absentRight, ofVariable⟩, rfl⟩
  exact bind_iff.mpr ⟨.truth, groundElement, inBody, .lambda _ _⟩

/-- Without type variables, the types of the sisters decide the type of their meaning. -/
theorem exists_typed_manner
    {leftType rightType : Ty}
    {manner : Manner}
    (groundLeft : leftType.Ground)
    (groundRight : rightType.Ground)
    (decided : leftType.manner? rightType = some manner) :
    ∃ ty, ∀ (scope : Scope) (left right : Term),
      Typed scope left leftType → Typed scope right rightType →
        Typed scope (manner.term left right) ty := by
  unfold Ty.manner? at decided
  split at decided
  · next accepts =>
      obtain ⟨range, rfl⟩ := (Ty.accepts_ground_iff groundLeft groundRight).mp accepts
      cases decided
      exact ⟨range, fun _ _ _ ofLeft ofRight => Typed.app_iff.mpr ⟨_, ofLeft, ofRight⟩⟩
  · split at decided
    · next accepts =>
        obtain ⟨range, rfl⟩ := (Ty.accepts_ground_iff groundRight groundLeft).mp accepts
        cases decided
        exact ⟨range, fun _ _ _ ofLeft ofRight => Typed.app_iff.mpr ⟨_, ofRight, ofLeft⟩⟩
    · obtain ⟨element, found, rfl⟩ := Option.map_eq_some_iff.mp decided
      obtain ⟨rfl, rfl⟩ := Ty.eq_predicate_of_commonElement? groundLeft groundRight found
      exact ⟨_, fun _ _ _ ofLeft ofRight => ofLeft.intersection ofRight⟩

/-- The sets in an intersection are below one more binder, which binds nothing in them. -/
theorem nameless_intersection
    (element : Ty)
    (left right : Term) :
    (Term.intersection element left right).nameless =
      .bind .lambda element
        (.connect .conjunction (.app left.nameless.shift (.bound 0 element))
          (.app right.nameless.shift (.bound 0 element))) := by
  obtain ⟨absentLeft, absentRight⟩ := hasFree_commonName left right
  unfold Term.intersection
  generalize freshName _ "x" = name at absentLeft absentRight
  simp only [nameless, namelessIn, namelessIn_cons_of_absent absentLeft,
    namelessIn_cons_of_absent absentRight]
  simp [List.idxOf?_cons]

/-- A meaning can be reduced as the sisters that it is made of can. -/
theorem reduces_star_manner
    (manner : Manner)
    {left leftAfter right rightAfter : Term}
    (leftReduces : ReflTransGen Nameless.Reduces left.nameless leftAfter.nameless)
    (rightReduces : ReflTransGen Nameless.Reduces right.nameless rightAfter.nameless) :
    ReflTransGen Nameless.Reduces (manner.term left right).nameless
      (manner.term leftAfter rightAfter).nameless := by
  cases manner with
  | leftApplied =>
      exact Nameless.reduces_star_both Nameless.app (.function _) (.argument _)
        leftReduces rightReduces
  | rightApplied =>
      exact Nameless.reduces_star_both Nameless.app (.function _) (.argument _)
        rightReduces leftReduces
  | intersected element =>
      rw [Manner.term, Manner.term, nameless_intersection, nameless_intersection]
      have member
          {set after : Term}
          (reduces : ReflTransGen Nameless.Reduces set.nameless after.nameless) :
          ReflTransGen Nameless.Reduces (.app set.nameless.shift (.bound 0 element))
            (.app after.nameless.shift (.bound 0 element)) :=
        Nameless.reduces_star_lift (fun set => Nameless.app set.shift (.bound 0 element))
          (fun inSet => .function _ inSet.shift) reduces
      exact Nameless.reduces_star_lift (Nameless.bind .lambda element) (.bind .lambda element)
        (Nameless.reduces_star_both (Nameless.connect .conjunction) (.connectLeft _ _)
          (.connectRight _ _) (member leftReduces) (member rightReduces))

/-- What is free in a meaning is free in one of the sisters. -/
theorem hasFree_of_hasFree_manner
    {manner : Manner}
    {left right : Term}
    {name : String}
    (free : (manner.term left right).hasFree name = true) :
    left.hasFree name = true ∨ right.hasFree name = true := by
  cases manner with
  | leftApplied =>
      simpa [Manner.term, hasFree] using free
  | rightApplied =>
      simpa [Manner.term, hasFree, or_comm] using free
  | intersected element =>
      simp only [Manner.term, Term.intersection, hasFree, Bool.and_eq_true, Bool.or_eq_true,
        bne_iff_ne, decide_eq_true_eq] at free
      grind

end Term

end TypedLambda
