import TypedLambda.Proofs.Ty.Unification

namespace TypedLambda.Ty

/-!
# Which types can be aligned

Unification that fails has got stuck: after a run of steps it has come to an
equation between two types of different form, or between a variable and a type
that properly contains it. No substitution makes the sides of such an equation
the same, because it neither changes the outermost constructor of a type nor
makes a type as large as one of its proper parts. What solves the first
equations solves every state of the run, so nothing solves them, and types can
be aligned exactly if some substitution makes them the same.
-/

open Relation (ReflTransGen)

/-- The outermost constructor of a type that is no variable. -/
inductive Head where
  | atom (letter : Char)
  | fn
  /-- A product, with the number of its factors. -/
  | prod (length : Nat)
  deriving DecidableEq

/-- The outermost constructor of a type, unless it is a variable. -/
def head? : Ty → Option Head
  | .atom letter => some (.atom letter)
  | .var _ => none
  | .fn _ _ => some .fn
  | .prod factors => some (.prod factors.length)

/-- Only variables have no outermost constructor. -/
theorem head?_eq_none_iff {ty : Ty} :
    ty.head? = none ↔ ∃ letter, ty = .var letter := by
  cases ty <;> simp [head?]

/-- A substitution keeps the outermost constructor of a type. -/
theorem head?_apply
    {ty : Ty}
    {head : Head}
    (found : ty.head? = some head)
    (substitution : Substitution) :
    (substitution.apply ty).head? = some head := by
  cases ty with
  | var letter =>
      cases found
  | prod factors =>
      simpa [head?, Substitution.apply, Substitution.applyAll_eq_map] using found
  | _ =>
      exact found

/-- A type in a list is not larger than all of them together. -/
theorem size_le_sizeOfAll
    {ty : Ty}
    {types : List Ty}
    (member : ty ∈ types) :
    ty.size ≤ sizeOfAll types := by
  induction types with
  | nil =>
      simp at member
  | cons first rest inductionHypothesis =>
      rw [sizeOfAll]
      rcases List.mem_cons.mp member with rfl | inRest
      · exact Nat.le_add_right _ _
      · exact Nat.le_trans (inductionHypothesis inRest) (Nat.le_add_left _ _)

section Size

variable (substitution : Substitution)

theorem size_apply_fn (domain range : Ty) :
    (substitution.apply (.fn domain range)).size =
      (substitution.apply domain).size + (substitution.apply range).size + 1 := by
  rw [Substitution.apply, size]

/-- A substitution leaves a factor smaller than the product. -/
theorem size_apply_factor_lt
    {factor : Ty}
    {factors : List Ty}
    (isFactor : factor ∈ factors) :
    (substitution.apply factor).size < (substitution.apply (.prod factors)).size := by
  have isImage :
      substitution.apply factor ∈ factors.map substitution.apply :=
    List.mem_map_of_mem isFactor
  rw [Substitution.apply, size, Substitution.applyAll_eq_map]
  exact Nat.lt_succ_of_le (size_le_sizeOfAll isImage)

/-- What a variable becomes is not larger than what a type becomes that contains it. -/
theorem size_apply_var_le
    {letter : Char}
    {ty : Ty}
    (member : letter ∈ ty.letters) :
    (substitution.apply (.var letter)).size ≤ (substitution.apply ty).size := by
  induction ty with
  | atom name =>
      simp [letters] at member
  | var name =>
      have same : letter = name := by simpa [letters] using member
      exact same ▸ Nat.le_refl _
  | fn domain range domainHypothesis rangeHypothesis =>
      rw [size_apply_fn]
      rw [letters, List.mem_append] at member
      rcases member with inDomain | inRange
      · have bound := domainHypothesis inDomain
        omega
      · have bound := rangeHypothesis inRange
        omega
  | prod factors inductionHypothesis =>
      obtain ⟨factor, isFactor, inFactor⟩ := mem_letters_prod.mp member
      exact Nat.le_trans (inductionHypothesis factor isFactor inFactor)
        (Nat.le_of_lt (size_apply_factor_lt substitution isFactor))

/-- What a variable becomes is smaller than what a type becomes that properly contains it. -/
theorem size_apply_var_lt
    {letter : Char}
    {ty : Ty}
    (member : letter ∈ ty.letters)
    (proper : ty ≠ .var letter) :
    (substitution.apply (.var letter)).size < (substitution.apply ty).size := by
  cases ty with
  | atom name =>
      simp [letters] at member
  | var name =>
      have same : letter = name := by simpa [letters] using member
      exact (proper (congrArg Ty.var same.symm)).elim
  | fn domain range =>
      rw [size_apply_fn]
      rw [letters, List.mem_append] at member
      rcases member with inDomain | inRange
      · have bound := size_apply_var_le substitution inDomain
        omega
      · have bound := size_apply_var_le substitution inRange
        omega
  | prod factors =>
      obtain ⟨factor, isFactor, inFactor⟩ := mem_letters_prod.mp member
      exact Nat.lt_of_le_of_lt (size_apply_var_le substitution inFactor)
        (size_apply_factor_lt substitution isFactor)

end Size

/-- Why nothing makes two types the same. -/
inductive Conflict.Between : Conflict → Ty → Ty → Prop where
  /-- The types have different outermost constructors. -/
  | clash
      {left right : Ty}
      {leftHead rightHead : Head}
      (ofLeft : left.head? = some leftHead)
      (ofRight : right.head? = some rightHead)
      (different : leftHead ≠ rightHead) :
      Between .clash left right
  /-- One of the types is a variable and the other one properly contains it. -/
  | occurs
      (letter : Char)
      (ty left right : Ty)
      (sides : left = .var letter ∧ right = ty ∨ left = ty ∧ right = .var letter)
      (member : letter ∈ ty.letters)
      (proper : ty ≠ .var letter) :
      Between (.occurs letter ty) left right

/-- Types between which there is a conflict are not made the same. -/
theorem Conflict.Between.apply_ne
    {conflict : Conflict}
    {left right : Ty}
    (between : conflict.Between left right)
    (substitution : Substitution) :
    substitution.apply left ≠ substitution.apply right := by
  intro same
  cases between with
  | clash ofLeft ofRight different =>
      have leftKept := head?_apply ofLeft substitution
      rw [same, head?_apply ofRight substitution] at leftKept
      exact different (Option.some.inj leftKept).symm
  | occurs letter ty left right sides member proper =>
      have smaller := size_apply_var_lt substitution member proper
      rcases sides with ⟨rfl, rfl⟩ | ⟨rfl, rfl⟩ <;> simp [same] at smaller

/-- Types clash that are no variables and are not formed in the same way. -/
theorem Conflict.between_clash
    {left right : Ty}
    (leftProper : ∀ letter, left ≠ .var letter)
    (rightProper : ∀ letter, right ≠ .var letter)
    (notAtoms : ∀ letter other, left = .atom letter → right ≠ .atom other)
    (notFunctions :
      ∀ domain range otherDomain otherRange,
        left = .fn domain range → right ≠ .fn otherDomain otherRange)
    (notProducts : ∀ factors others, left = .prod factors → right ≠ .prod others) :
    Conflict.clash.Between left right := by
  cases left with
  | var letter =>
      exact (leftProper letter rfl).elim
  | atom letter =>
      cases right with
      | atom other =>
          exact (notAtoms letter other rfl rfl).elim
      | var other =>
          exact (rightProper other rfl).elim
      | fn | prod =>
          exact .clash rfl rfl (by simp)
  | fn domain range =>
      cases right with
      | fn otherDomain otherRange =>
          exact (notFunctions domain range otherDomain otherRange rfl rfl).elim
      | var other =>
          exact (rightProper other rfl).elim
      | atom | prod =>
          exact .clash rfl rfl (by simp)
  | prod factors =>
      cases right with
      | prod others =>
          exact (notProducts factors others rfl rfl).elim
      | var other =>
          exact (rightProper other rfl).elim
      | atom | fn =>
          exact .clash rfl rfl (by simp)

/-- Steps lead to an equation between types in conflict. -/
def Unification.Meets (unification : Unification) (conflict : Conflict) : Prop :=
  ∃ left right rest found,
    ReflTransGen UnifyStep unification ((left, right) :: rest, found) ∧
      conflict.Between left right

namespace Unification.Meets

variable {conflict : Conflict}

/-- The conflict is in the first equation. -/
theorem here
    {left right : Ty}
    {rest : Equations}
    {found : Substitution}
    (between : conflict.Between left right) :
    Meets ((left, right) :: rest, found) conflict :=
  ⟨left, right, rest, found, .refl, between⟩

/-- The conflict comes after a step. -/
theorem after
    {first second : Unification}
    (step : UnifyStep first second)
    (meets : second.Meets conflict) :
    first.Meets conflict := by
  obtain ⟨left, right, rest, found, run, between⟩ := meets
  exact ⟨left, right, rest, found, .head step run, between⟩

end Unification.Meets

/-- Unification that fails has come to an equation between types in conflict. -/
theorem meets_of_unify_eq_error
    {equations : Equations}
    {solution : Substitution}
    {conflict : Conflict}
    (failed : unify equations solution = .error conflict) :
    Unification.Meets (equations, solution) conflict := by
  fun_induction unify equations solution with
  | case1 solution =>
      cases failed
  | case2 letter rest solution inductionHypothesis =>
      exact .after (.drop _ _ _) (inductionHypothesis failed)
  | case3 letter ty rest solution different member =>
      cases failed
      exact .here (.occurs letter ty _ _ (.inl ⟨rfl, rfl⟩) member different)
  | case4 letter ty rest solution different acyclic inductionHypothesis =>
      exact .after (.solve letter ty _ _ _ _ (.inl ⟨rfl, rfl⟩) acyclic)
        (inductionHypothesis failed)
  | case5 ty letter rest solution noVariable member =>
      cases failed
      exact .here (.occurs letter ty _ _ (.inr ⟨rfl, rfl⟩) member (noVariable letter))
  | case6 ty letter rest solution noVariable acyclic inductionHypothesis =>
      exact .after (.solve letter ty _ _ _ _ (.inr ⟨rfl, rfl⟩) acyclic)
        (inductionHypothesis failed)
  | case7 letter rest solution inductionHypothesis =>
      exact .after (.drop _ _ _) (inductionHypothesis failed)
  | case8 left right rest solution different =>
      cases failed
      exact .here (.clash rfl rfl (by simpa using different))
  | case9 domain range otherDomain otherRange rest solution
      inductionHypothesis =>
      exact .after (.functions _ _ _ _ _ _) (inductionHypothesis failed)
  | case10 factors others rest solution sameLength inductionHypothesis =>
      exact .after (.products _ _ _ _ sameLength) (inductionHypothesis failed)
  | case11 factors others rest solution differentLength =>
      cases failed
      exact .here (.clash rfl rfl (by simpa using differentLength))
  | case12 equation rest solution noVariable noVariable' noAtoms
      noFunctions noProducts =>
      cases failed
      obtain ⟨left, right⟩ := equation
      -- No other case fits, so the two sides are built differently.
      refine .here (Conflict.between_clash ?_ ?_ ?_ ?_ ?_)
      · rintro letter rfl
        exact noVariable letter right rfl
      · rintro letter rfl
        exact noVariable' left letter rfl
      · rintro letter other rfl rfl
        exact noAtoms letter other rfl
      · rintro domain range otherDomain otherRange rfl rfl
        exact noFunctions domain range otherDomain otherRange rfl
      · rintro factors others rfl rfl
        exact noProducts factors others rfl

/-- Types that some substitution makes the same are unified. -/
theorem unify_ne_error_of_apply_eq
    {left right : Ty}
    {unifier : Substitution}
    (same : unifier.apply left = unifier.apply right)
    (conflict : Conflict) :
    unify [(left, right)] .empty ≠ .error conflict := by
  intro failed
  obtain ⟨stuckLeft, stuckRight, rest, found, run, between⟩ := meets_of_unify_eq_error failed
  obtain ⟨_, sameSolutions⟩ := unifyRun_sound run (Unification.sound_start left right)
  have solvedFirst : Unification.SolvedBy ([(left, right)], .empty) unifier :=
    ⟨by simpa using same, Substitution.absorbs_empty unifier⟩
  obtain ⟨solved, _⟩ := (sameSolutions unifier).mp solvedFirst
  exact between.apply_ne unifier (solved _ List.mem_cons_self)

/-- What makes two types the same is what absorbs their alignment, which absorbs itself. -/
theorem apply_eq_iff_absorbs_alignment
    {left right : Ty}
    {alignment : Substitution}
    (aligned : left.align right = .ok alignment) :
    alignment.Absorbs alignment ∧
      ∀ unifier : Substitution,
        unifier.apply left = unifier.apply right ↔ unifier.Absorbs alignment := by
  obtain ⟨sound, sameSolutions⟩ :=
    unifyRun_sound (unifyRun_of_unify (unify_of_align aligned))
      (Unification.sound_start left right)
  refine ⟨sound.resolved.absorbs_self, fun unifier => ?_⟩
  simpa [Unification.SolvedBy, Substitution.absorbs_empty] using sameSolutions unifier

/-- Types can be aligned exactly if some substitution makes them the same. -/
theorem exists_align_eq_ok_iff {left right : Ty} :
    (∃ alignment, left.align right = .ok alignment) ↔
      ∃ unifier : Substitution, unifier.apply left = unifier.apply right := by
  constructor
  · rintro ⟨alignment, aligned⟩
    obtain ⟨absorbsSelf, solvedBy_iff⟩ := apply_eq_iff_absorbs_alignment aligned
    exact ⟨alignment, (solvedBy_iff alignment).mpr absorbsSelf⟩
  · rintro ⟨unifier, same⟩
    have noConflict := unify_ne_error_of_apply_eq same
    cases unified : unify [(left, right)] .empty with
    | ok alignment =>
        exact ⟨alignment, by rw [align, unified]⟩
    | error conflict =>
        exact (noConflict conflict unified).elim

/-- A variable is aligned with a type that does not contain it by putting in the type. -/
theorem align_var_eq_ok
    {letter : Char}
    {ty : Ty}
    (acyclic : letter ∉ ty.letters) :
    (var letter).align ty = .ok (.single letter ty) := by
  have different : ty ≠ .var letter := by
    rintro rfl
    simp [letters] at acyclic
  simp only [align, unify, different, ↓reduceIte, acyclic, Equations.instantiate, List.map_nil]
  rfl

/-- The two types may change sides. -/
theorem exists_align_eq_ok_comm {left right : Ty} :
    (∃ alignment, left.align right = .ok alignment) ↔
      ∃ alignment, right.align left = .ok alignment := by
  rw [exists_align_eq_ok_iff, exists_align_eq_ok_iff]
  exact exists_congr fun unifier => eq_comm

/-- A variable that is reported is a proper part of the type reported with it. -/
theorem mem_letters_of_align_eq_infinite
    {left right ty : Ty}
    {letter : Char}
    (failed : left.align right = .error (.infinite letter ty)) :
    letter ∈ ty.letters ∧ ty ≠ .var letter := by
  have unified : unify [(left, right)] .empty = .error (.occurs letter ty) := by
    unfold align at failed
    split at failed <;> cases failed
    assumption
  obtain ⟨_, _, _, _, _, between⟩ := meets_of_unify_eq_error unified
  cases between with
  | occurs _ _ _ _ _ member proper =>
      exact ⟨member, proper⟩

/--
Alignment is complete. It fails exactly for types that no substitution makes
the same, and it succeeds for the types in either order or in none. A variable
that is reported as one that would have to contain itself occurs in the type
that it would stand for and is not that type.
-/
theorem align_complete (left right : Ty) :
    ((∃ reason, left.align right = .error reason) ↔
        ∀ unifier : Substitution, unifier.apply left ≠ unifier.apply right) ∧
      ((∃ alignment, left.align right = .ok alignment) ↔
        ∃ alignment, right.align left = .ok alignment) ∧
      ∀ letter ty,
        left.align right = .error (.infinite letter ty) →
          letter ∈ ty.letters ∧ ty ≠ .var letter := by
  have failsOrSucceeds :
      (∃ reason, left.align right = .error reason) ↔
        ¬∃ alignment, left.align right = .ok alignment := by
    cases left.align right <;> simp
  refine ⟨?_, exists_align_eq_ok_comm, fun letter ty => mem_letters_of_align_eq_infinite⟩
  rw [failsOrSucceeds, exists_align_eq_ok_iff, not_exists]

/-- The type 'a×'b×'c. -/
def chainedLeft : Ty :=
  .prod [.var 'a', .var 'b', .var 'c']

/-- The type 'b×<'c,t>×'a. -/
def chainedRight : Ty :=
  .prod [.var 'b', .predicate (.var 'c'), .var 'a']

/-- That 'c would have to contain itself comes out only after two other variables are replaced. -/
theorem align_complete_chainedVariables :
    chainedLeft.align chainedRight = .error (.infinite 'c' (.predicate (.var 'c'))) ∧
      'c' ∈ (Ty.predicate (.var 'c')).letters ∧
      (∀ unifier : Substitution,
        unifier.apply chainedLeft ≠ unifier.apply chainedRight) ∧
      ¬∃ alignment, chainedRight.align chainedLeft = .ok alignment := by
  have failed :
      chainedLeft.align chainedRight =
        .error (.infinite 'c' (.predicate (.var 'c'))) := by
    simp [chainedLeft, chainedRight, align, unify, letters, Equations.instantiate,
      Substitution.apply, predicate, truth]
  obtain ⟨fails_iff, succeeds_comm, properPart⟩ := align_complete chainedLeft chainedRight
  refine ⟨failed, (properPart _ _ failed).1, fails_iff.mp ⟨_, failed⟩, ?_⟩
  rw [← succeeds_comm, failed]
  simp

end TypedLambda.Ty
