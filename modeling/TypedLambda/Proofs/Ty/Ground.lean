import TypedLambda.Proofs.Outcome
import TypedLambda.Term.Typing

namespace TypedLambda.Ty

/-!
# Types without variables

On types without variables, aligning is comparing: equations have a solution
only if their sides are the same, and then there is nothing to solve. No
substitution changes such a type, and an application of such types needs an
argument of exactly the domain.
-/

/-- No type variable occurs in the type. -/
def Ground (ty : Ty) : Prop :=
  ty.letters = []

instance (ty : Ty) : Decidable ty.Ground :=
  inferInstanceAs (Decidable (ty.letters = []))

@[simp] theorem ground_atom (letter : Char) :
    (Ty.atom letter).Ground :=
  rfl

@[simp] theorem ground_truth : truth.Ground :=
  rfl

@[simp] theorem ground_fn_iff {domain range : Ty} :
    (Ty.fn domain range).Ground ↔ domain.Ground ∧ range.Ground :=
  List.append_eq_nil_iff

@[simp] theorem ground_prod_iff {factors : List Ty} :
    (Ty.prod factors).Ground ↔ ∀ factor ∈ factors, factor.Ground := by
  simp [Ground, letters, lettersOfAll_eq_flatMap]

@[simp] theorem not_ground_var (letter : Char) : ¬(Ty.var letter).Ground :=
  List.cons_ne_nil _ _

/-- A substitution leaves a type without variables as it is. -/
theorem Ground.apply_eq_self
    {ty : Ty}
    (ground : ty.Ground)
    (substitution : Substitution) :
    substitution.apply ty = ty := by
  induction ty with
  | atom letter =>
      rfl
  | var letter =>
      exact (not_ground_var letter ground).elim
  | fn domain range domainHypothesis rangeHypothesis =>
      obtain ⟨groundDomain, groundRange⟩ := ground_fn_iff.mp ground
      rw [Substitution.apply, domainHypothesis groundDomain,
        rangeHypothesis groundRange]
  | prod factors inductionHypothesis =>
      rw [ground_prod_iff] at ground
      rw [Substitution.apply, Substitution.applyAll_eq_map, Ty.prod.injEq]
      have same : factors.map substitution.apply = factors.map id :=
        List.map_congr_left fun factor member =>
          inductionHypothesis factor member (ground factor member)
      simpa using same

namespace Equations

/-- Neither side of any equation has variables. -/
def Ground (equations : Equations) : Prop :=
  ∀ equation ∈ equations, equation.1.Ground ∧ equation.2.Ground

/-- Both sides of every equation are the same type. -/
def Trivial (equations : Equations) : Prop :=
  ∀ equation ∈ equations, equation.1 = equation.2

@[simp] theorem ground_cons_iff
    {left right : Ty}
    {rest : Equations} :
    Ground ((left, right) :: rest) ↔
      (left.Ground ∧ right.Ground) ∧ Ground rest :=
  List.forall_mem_cons

@[simp] theorem trivial_cons_iff
    {left right : Ty}
    {rest : Equations} :
    Trivial ((left, right) :: rest) ↔ left = right ∧ Trivial rest :=
  List.forall_mem_cons

/-- Equations between factors have no variables if the products have none. -/
theorem ground_zip_append
    {factors others : List Ty}
    {rest : Equations}
    (ground : Ground ((.prod factors, .prod others) :: rest)) :
    Ground (factors.zip others ++ rest) := by
  simp only [ground_cons_iff, ground_prod_iff] at ground
  intro equation member
  rcases List.mem_append.mp member with inZip | inRest
  · obtain ⟨isFactor, isOther⟩ := List.of_mem_zip inZip
    exact ⟨ground.1.1 _ isFactor, ground.1.2 _ isOther⟩
  · exact ground.2 equation inRest

/-- Products of the same length are the same if they agree factor by factor. -/
theorem trivial_zip_iff
    {factors others : List Ty}
    (sameLength : factors.length = others.length) :
    Trivial (factors.zip others) ↔ factors = others := by
  induction factors generalizing others with
  | nil =>
      cases others with
      | nil =>
          simp [Trivial]
      | cons other others =>
          simp at sameLength
  | cons factor factors inductionHypothesis =>
      cases others with
      | nil =>
          simp at sameLength
      | cons other others =>
          have tails := inductionHypothesis (Nat.succ.inj sameLength)
          rw [List.zip_cons_cons, trivial_cons_iff, tails, List.cons.injEq]

end Equations

/-- Equations without variables are solved exactly if there is nothing to solve. -/
theorem unify_ground_eq_ok_iff
    {equations : Equations}
    {solution result : Substitution}
    (ground : equations.Ground) :
    unify equations solution = .ok result ↔
      equations.Trivial ∧ solution = result := by
  fun_induction unify equations solution with
  | case1 solution =>
      simp [Equations.Trivial]
  | case2 | case3 | case4 | case5 | case6 =>
      simp at ground
  | case7 letter rest solution inductionHypothesis =>
      simp [inductionHypothesis (Equations.ground_cons_iff.mp ground).2]
  | case8 left right rest solution different =>
      simp [different]
  | case9 domain range otherDomain otherRange rest solution
      inductionHypothesis =>
      have parts :
          Equations.Ground
            ((domain, otherDomain) :: (range, otherRange) :: rest) := by
        simp only [Equations.ground_cons_iff, ground_fn_iff] at ground ⊢
        obtain ⟨⟨groundLeft, groundRight⟩, groundRest⟩ := ground
        exact ⟨⟨groundLeft.1, groundRight.1⟩,
          ⟨groundLeft.2, groundRight.2⟩, groundRest⟩
      simp [inductionHypothesis parts, and_assoc]
  | case10 factors others rest solution sameLength inductionHypothesis =>
      have factorwise :
          Equations.Trivial (factors.zip others ++ rest) ↔
            factors = others ∧ Equations.Trivial rest := by
        rw [← Equations.trivial_zip_iff sameLength]
        exact List.forall_mem_append
      rw [inductionHypothesis (Equations.ground_zip_append ground), factorwise,
        Equations.trivial_cons_iff, Ty.prod.injEq]
  | case11 factors others rest solution differentLength =>
      have different : factors ≠ others := fun same =>
        differentLength (congrArg List.length same)
      simp [different]
  | case12 equation rest solution noVariable noVariable' noAtoms
      noFunctions noProducts =>
      have different : equation.1 ≠ equation.2 := by
        obtain ⟨left, right⟩ := equation
        rintro (rfl : left = right)
        cases left with
        | atom letter =>
            exact noAtoms letter letter rfl
        | var letter =>
            exact noVariable letter _ rfl
        | fn domain range =>
            exact noFunctions domain range domain range rfl
        | prod factors =>
            exact noProducts factors factors rfl
      obtain ⟨left, right⟩ := equation
      simp [different]

/-- Types without variables are aligned exactly if they are the same. -/
theorem align_ground_eq_ok_iff
    {left right : Ty}
    {alignment : Substitution}
    (groundLeft : left.Ground)
    (groundRight : right.Ground) :
    left.align right = .ok alignment ↔
      left = right ∧ .empty = alignment := by
  have solved :
      unify [(left, right)] .empty = .ok alignment ↔
        left = right ∧ .empty = alignment := by
    rw [unify_ground_eq_ok_iff
      (by simp [groundLeft, groundRight, Equations.Ground])]
    simp [Equations.Trivial]
  rw [← solved]
  unfold align
  split <;> simp_all

/-- A function takes an argument exactly if its type is the domain. -/
theorem applyTo_ground_eq_ok_iff
    [ToString Shown]
    {function argument range : Ty}
    {shown : Shown}
    {alignment : Substitution}
    (groundFunction : function.Ground)
    (groundArgument : argument.Ground) :
    function.applyTo argument shown = .ok (range, alignment) ↔
      function = .fn argument range ∧ .empty = alignment := by
  cases function with
  | fn domain codomain =>
      rw [ground_fn_iff] at groundFunction
      simp only [applyTo, groundArgument.apply_eq_self, Outcome.bind_eq_ok_iff,
        Outcome.pure_eq_ok_iff, Prod.mk.injEq, groundFunction.2.apply_eq_self,
        align_ground_eq_ok_iff groundFunction.1 groundArgument, Ty.fn.injEq]
      grind
  | _ =>
      simp [applyTo]

/-- A function between types without variables takes an argument of its domain. -/
theorem applyTo_domain
    [ToString Shown]
    {domain range : Ty}
    {shown : Shown}
    (groundDomain : domain.Ground)
    (groundRange : range.Ground) :
    (fn domain range).applyTo domain shown = .ok (range, .empty) :=
  (applyTo_ground_eq_ok_iff (ground_fn_iff.mpr ⟨groundDomain, groundRange⟩)
    groundDomain).mpr ⟨rfl, rfl⟩

theorem aligns_ground_iff
    {left right : Ty}
    (groundLeft : left.Ground)
    (groundRight : right.Ground) :
    left.aligns right = true ↔ left = right := by
  have solved (alignment : Substitution) :
      left.align right = .ok alignment ↔
        left = right ∧ .empty = alignment :=
    align_ground_eq_ok_iff groundLeft groundRight
  unfold aligns
  cases outcome : left.align right with
  | error reason =>
      have different : left ≠ right := by
        simpa [outcome] using solved .empty
      simp [Except.isOk, Except.toBool, different]
  | ok alignment =>
      have same : left = right := ((solved alignment).mp outcome).1
      simp [Except.isOk, Except.toBool, same]

/-- The alignment with the type of truth values succeeds only for this type. -/
theorem demandTruth_ground_eq_ok_iff
    {ty : Ty}
    (ground : ty.Ground) :
    ty.demandTruth = .ok () ↔ ty = truth := by
  simp only [demandTruth, Outcome.bind_eq_ok_iff, Outcome.pure_eq_ok_iff,
    align_ground_eq_ok_iff ground_truth ground, and_true, exists_and_left,
    exists_eq']
  exact eq_comm

/-- Among types without variables only the functions to truth values have elements. -/
theorem element?_ground_eq_some_iff
    {ty element : Ty}
    (ground : ty.Ground) :
    ty.element? = some element ↔ ty = predicate element := by
  cases ty with
  | fn domain range =>
      rw [ground_fn_iff] at ground
      have aligned := aligns_ground_iff ground_truth ground.2
      rw [eq_comm (a := truth)] at aligned
      simp only [element?, aligned, Option.ite_none_right_eq_some,
        Option.some.injEq, predicate, Ty.fn.injEq]
      exact And.comm
  | _ =>
      simp [element?, predicate]

end TypedLambda.Ty
