import Mathlib.Logic.Relation
import TypedLambda.Proofs.Ty.Ground
import TypedLambda.Proofs.Ty.Substitution

namespace TypedLambda.Ty

/-!
# Most general alignments

Unification that succeeds is a run of steps on the equations still to solve
and the substitution found so far. A step keeps what solves the equations
together with the substitution, so a substitution solves the first equations
exactly if it absorbs the result. That the result is itself such a
substitution rests on an invariant: a variable that has been replaced is gone
from the equations and from all types that variables have been given.
-/

open Relation (ReflTransGen)

namespace Equations

/-- The substitution makes the sides of every equation the same. -/
def SolvedBy (equations : Equations) (substitution : Substitution) : Prop :=
  ∀ equation ∈ equations,
    substitution.apply equation.1 = substitution.apply equation.2

section SolvedBy

variable {left right : Ty} {rest : Equations} {substitution : Substitution}

@[simp] theorem solvedBy_nil : SolvedBy [] substitution := by
  simp [SolvedBy]

@[simp] theorem solvedBy_cons_iff :
    SolvedBy ((left, right) :: rest) substitution ↔
      substitution.apply left = substitution.apply right ∧
        SolvedBy rest substitution :=
  List.forall_mem_cons

/-- Equations between factors are solved by what makes the products the same. -/
theorem solvedBy_zip_append_iff
    {factors others : List Ty}
    (sameLength : factors.length = others.length) :
    SolvedBy (factors.zip others ++ rest) substitution ↔
      substitution.apply (.prod factors) = substitution.apply (.prod others) ∧
        SolvedBy rest substitution := by
  simp only [Substitution.apply, Substitution.applyAll_eq_map, Ty.prod.injEq]
  induction factors generalizing others with
  | nil =>
      cases others with
      | nil =>
          simp
      | cons other others =>
          simp at sameLength
  | cons factor factors inductionHypothesis =>
      cases others with
      | nil =>
          simp at sameLength
      | cons other others =>
          have tails := inductionHypothesis (Nat.succ.inj sameLength)
          simp only [List.zip_cons_cons, List.cons_append, solvedBy_cons_iff,
            tails, List.map_cons, List.cons.injEq, and_assoc]

/-- Substituting first makes no difference to a substitution that absorbs that. -/
theorem solvedBy_instantiate_iff
    {inner : Substitution}
    (absorbs : substitution.Absorbs inner) :
    SolvedBy (rest.instantiate inner) substitution ↔
      SolvedBy rest substitution := by
  have sameSide (ty : Ty) :
      substitution.apply (inner.apply ty) = substitution.apply ty :=
    absorbs ty
  unfold SolvedBy instantiate
  simp only [List.forall_mem_map, sameSide]

end SolvedBy

@[simp] theorem mem_letters_cons
    {letter : Char}
    {left right : Ty}
    {rest : Equations} :
    letter ∈ Equations.letters ((left, right) :: rest) ↔
      (letter ∈ left.letters ∨ letter ∈ right.letters) ∨
        letter ∈ rest.letters := by
  simp [Equations.letters, or_assoc]

/-- Equations between factors mention no variables that the products do not. -/
theorem mem_letters_of_zip_append
    {letter : Char}
    {factors others : List Ty}
    {rest : Equations}
    (member : letter ∈ Equations.letters (factors.zip others ++ rest)) :
    letter ∈ Equations.letters ((.prod factors, .prod others) :: rest) := by
  have split :
      letter ∈ Equations.letters (factors.zip others) ∨
        letter ∈ rest.letters := by
    simpa [Equations.letters] using member
  rw [mem_letters_cons]
  exact split.imp_left letters_zip_subset

/-- A solved variable is gone, and only the variables of its type have come in. -/
theorem mem_letters_instantiate_single
    {letter other : Char}
    {ty : Ty}
    {rest : Equations}
    (member : other ∈ Equations.letters (rest.instantiate (.single letter ty))) :
    (other ∈ rest.letters ∧ other ≠ letter) ∨ other ∈ ty.letters := by
  simp only [Equations.letters, Equations.instantiate, List.mem_flatMap,
    List.mem_map, List.mem_append] at member ⊢
  obtain ⟨_, ⟨equation, isEquation, rfl⟩, member⟩ := member
  rcases member with inLeft | inRight
  · rcases mem_letters_apply_single inLeft with ⟨kept, different⟩ | ⟨new, _⟩
    · exact .inl ⟨⟨equation, isEquation, .inl kept⟩, different⟩
    · exact .inr new
  · rcases mem_letters_apply_single inRight with ⟨kept, different⟩ | ⟨new, _⟩
    · exact .inl ⟨⟨equation, isEquation, .inr kept⟩, different⟩
    · exact .inr new

end Equations

/-- The equations still to solve and the substitution found so far. -/
abbrev Unification := Equations × Substitution

/-- One equation is worked off. -/
inductive UnifyStep : Unification → Unification → Prop where
  /-- Nothing has to be done to make a type the same as itself. -/
  | drop (ty : Ty) (rest : Equations) (solution : Substitution) :
      UnifyStep ((ty, ty) :: rest, solution) (rest, solution)
  /-- A variable on one side is replaced by the other side everywhere. -/
  | solve
      (letter : Char)
      (ty left right : Ty)
      (rest : Equations)
      (solution : Substitution)
      (sides : left = .var letter ∧ right = ty ∨ left = ty ∧ right = .var letter)
      (acyclic : letter ∉ ty.letters) :
      UnifyStep ((left, right) :: rest, solution)
        (rest.instantiate (.single letter ty),
          (Substitution.single letter ty).compose solution)
  /-- Functions are the same if their domains and ranges are. -/
  | functions
      (domain range otherDomain otherRange : Ty)
      (rest : Equations)
      (solution : Substitution) :
      UnifyStep ((.fn domain range, .fn otherDomain otherRange) :: rest, solution)
        ((domain, otherDomain) :: (range, otherRange) :: rest, solution)
  /-- Products of the same length are the same if their factors are. -/
  | products
      (factors others : List Ty)
      (rest : Equations)
      (solution : Substitution)
      (sameLength : factors.length = others.length) :
      UnifyStep ((.prod factors, .prod others) :: rest, solution)
        (factors.zip others ++ rest, solution)

/-- Unification that succeeds has worked off all equations. -/
theorem unifyRun_of_unify
    {equations : Equations}
    {solution result : Substitution}
    (unified : unify equations solution = .ok result) :
    ReflTransGen UnifyStep (equations, solution) ([], result) := by
  fun_induction unify equations solution with
  | case1 solution =>
      cases unified
      exact .refl
  | case2 letter rest solution inductionHypothesis =>
      exact .head (.drop _ _ _) (inductionHypothesis unified)
  | case4 letter ty rest solution different acyclic inductionHypothesis =>
      exact .head (.solve letter ty _ _ _ _ (.inl ⟨rfl, rfl⟩) acyclic)
        (inductionHypothesis unified)
  | case6 ty letter rest solution noVariable acyclic inductionHypothesis =>
      exact .head (.solve letter ty _ _ _ _ (.inr ⟨rfl, rfl⟩) acyclic)
        (inductionHypothesis unified)
  | case7 letter rest solution inductionHypothesis =>
      exact .head (.drop _ _ _) (inductionHypothesis unified)
  | case9 domain range otherDomain otherRange rest solution
      inductionHypothesis =>
      exact .head (.functions _ _ _ _ _ _) (inductionHypothesis unified)
  | case10 factors others rest solution sameLength inductionHypothesis =>
      exact .head (.products _ _ _ _ sameLength) (inductionHypothesis unified)
  | case3 | case5 | case8 | case11 | case12 =>
      cases unified

/-- The substitution solves the equations and absorbs what has been found. -/
def Unification.SolvedBy
    (state : Unification)
    (substitution : Substitution) : Prop :=
  state.1.SolvedBy substitution ∧ substitution.Absorbs state.2

/--
Where a state of unification has come to, the known variables being those of
the first equations.
-/
structure Unification.Sound
    (known : List Char)
    (state : Unification) : Prop where
  /-- The types given to variables mention none that is replaced. -/
  resolved : state.2.Resolved
  /-- No variable that is replaced is left in the equations. -/
  eliminated : ∀ letter ∈ state.1.letters, state.2.get? letter = none
  /-- No new variable has come into the equations. -/
  equationsKnown : ∀ letter ∈ state.1.letters, letter ∈ known
  /-- Only known variables are replaced, by types with known variables. -/
  solutionKnown :
    ∀ letter image, state.2.get? letter = some image →
      letter ∈ known ∧ ∀ other ∈ image.letters, other ∈ known

namespace Unification.Sound

variable {known : List Char} {equations rest : Equations} {solution : Substitution}

/-- Equations may give way to others that mention no further variables. -/
theorem of_letters_subset
    (sound : Sound known (equations, solution))
    (included : ∀ letter ∈ rest.letters, letter ∈ equations.letters) :
    Sound known (rest, solution) where
  resolved := sound.resolved
  eliminated letter member := sound.eliminated letter (included letter member)
  equationsKnown letter member := sound.equationsKnown letter (included letter member)
  solutionKnown := sound.solutionKnown

/-- What a variable is given after another one has been solved. -/
theorem get?_compose_single
    {letter other : Char}
    {ty image : Ty}
    (found :
      ((Substitution.single letter ty).compose solution).get? other =
        some image) :
    (other = letter ∧ image = ty) ∨
      ∃ before, solution.get? other = some before ∧
        image = (Substitution.single letter ty).apply before := by
  rw [Substitution.get?_compose] at found
  cases before : solution.get? other with
  | none =>
      by_cases same : other = letter
      · subst same
        have isType : ty = image := by
          simpa [before] using found
        exact .inl ⟨rfl, isType.symm⟩
      · simp [before, same] at found
  | some old =>
      have isOld : (Substitution.single letter ty).apply old = image := by
        simpa [before] using found
      exact .inr ⟨old, rfl, isOld.symm⟩

/-- Nothing is replaced after another variable has been solved that was not before. -/
theorem get?_compose_single_eq_none
    {letter other : Char}
    {ty : Ty}
    (missing : solution.get? other = none)
    (different : other ≠ letter) :
    ((Substitution.single letter ty).compose solution).get? other = none := by
  simp [Substitution.get?_compose, missing, different]

/-- A variable that the equations mention may be solved. -/
theorem solve
    {letter : Char}
    {ty : Ty}
    (sound : Sound known (equations, solution))
    (acyclic : letter ∉ ty.letters)
    (present : letter ∈ equations.letters)
    (mentioned : ∀ other ∈ ty.letters, other ∈ equations.letters)
    (included : ∀ other ∈ rest.letters, other ∈ equations.letters) :
    Sound known
      (rest.instantiate (.single letter ty),
        (Substitution.single letter ty).compose solution) := by
  have different {other : Char} (member : other ∈ ty.letters) :
      other ≠ letter := fun same =>
    acyclic (same ▸ member)
  have ofEquations {other : Char}
      (member : other ∈ (rest.instantiate (.single letter ty)).letters) :
      other ∈ equations.letters ∧ other ≠ letter := by
    rcases Equations.mem_letters_instantiate_single member with
      ⟨kept, notLetter⟩ | new
    · exact ⟨included other kept, notLetter⟩
    · exact ⟨mentioned other new, different new⟩
  constructor
  · intro key image found other member
    rcases get?_compose_single found with ⟨rfl, rfl⟩ | ⟨before, foundBefore, rfl⟩
    · exact get?_compose_single_eq_none
        (sound.eliminated other (mentioned other member)) (different member)
    · rcases mem_letters_apply_single member with ⟨kept, notLetter⟩ | ⟨new, _⟩
      · exact get?_compose_single_eq_none
          (sound.resolved key before foundBefore other kept) notLetter
      · exact get?_compose_single_eq_none
          (sound.eliminated other (mentioned other new)) (different new)
  · intro other member
    obtain ⟨inEquations, notLetter⟩ := ofEquations member
    exact get?_compose_single_eq_none
      (sound.eliminated other inEquations) notLetter
  · intro other member
    exact sound.equationsKnown other (ofEquations member).1
  · intro key image found
    rcases get?_compose_single found with ⟨rfl, rfl⟩ | ⟨before, foundBefore, rfl⟩
    · exact ⟨sound.equationsKnown key present, fun other member =>
        sound.equationsKnown other (mentioned other member)⟩
    · obtain ⟨isKnown, imageKnown⟩ :=
        sound.solutionKnown key before foundBefore
      refine ⟨isKnown, fun other member => ?_⟩
      rcases mem_letters_apply_single member with ⟨kept, _⟩ | ⟨new, _⟩
      · exact imageKnown other kept
      · exact sound.equationsKnown other (mentioned other new)

end Unification.Sound

/-- A step keeps the invariant. -/
theorem UnifyStep.sound
    {known : List Char}
    {before after : Unification}
    (step : UnifyStep before after)
    (sound : before.Sound known) :
    after.Sound known := by
  cases step with
  | drop ty rest solution =>
      exact sound.of_letters_subset fun letter member =>
        Equations.mem_letters_cons.mpr (.inr member)
  | solve letter ty left right rest solution sides acyclic =>
      apply sound.solve acyclic
      · rcases sides with ⟨rfl, rfl⟩ | ⟨rfl, rfl⟩ <;> simp [letters]
      · intro other member
        rcases sides with ⟨rfl, rfl⟩ | ⟨rfl, rfl⟩ <;> simp [member]
      · intro other member
        exact Equations.mem_letters_cons.mpr (.inr member)
  | functions domain range otherDomain otherRange rest solution =>
      refine sound.of_letters_subset fun letter member => ?_
      simp only [Equations.mem_letters_cons, letters, List.mem_append] at member ⊢
      grind
  | products factors others rest solution sameLength =>
      exact sound.of_letters_subset fun letter member =>
        Equations.mem_letters_of_zip_append member

/-- A step keeps what solves the equations and absorbs the substitution. -/
theorem UnifyStep.solvedBy_iff
    {known : List Char}
    {before after : Unification}
    (step : UnifyStep before after)
    (sound : before.Sound known)
    {substitution : Substitution} :
    before.SolvedBy substitution ↔ after.SolvedBy substitution := by
  unfold Unification.SolvedBy
  cases step with
  | drop ty rest solution =>
      simp
  | solve letter ty left right rest solution sides acyclic =>
      have sidesSolved :
          substitution.apply left = substitution.apply right ↔
            substitution.Absorbs (.single letter ty) := by
        rw [Substitution.absorbs_single_iff]
        rcases sides with ⟨rfl, rfl⟩ | ⟨rfl, rfl⟩
        · exact Iff.rfl
        · exact eq_comm
      simp only [Equations.solvedBy_cons_iff, sidesSolved]
      constructor
      · rintro ⟨⟨absorbsSingle, restSolved⟩, absorbs⟩
        exact ⟨(Equations.solvedBy_instantiate_iff absorbsSingle).mpr restSolved,
          absorbsSingle.compose absorbs⟩
      · rintro ⟨restSolved, absorbs⟩
        -- The variable has not been replaced before, so the composition says what it becomes.
        have present :
            letter ∈ Equations.letters ((left, right) :: rest) := by
          rcases sides with ⟨rfl, rfl⟩ | ⟨rfl, rfl⟩ <;> simp [letters]
        have unbound : solution.get? letter = none :=
          sound.eliminated letter present
        have absorbsSingle : substitution.Absorbs (.single letter ty) := by
          rw [Substitution.absorbs_single_iff]
          have atLetter := absorbs (.var letter)
          simpa [Substitution.apply, Substitution.get?_compose, unbound] using
            atLetter.symm
        have absorbsBefore : substitution.Absorbs solution := fun other => by
          calc
            substitution.apply (solution.apply other) =
                substitution.apply
                  ((Substitution.single letter ty).apply (solution.apply other)) :=
              (absorbsSingle _).symm
            _ = substitution.apply
                  (((Substitution.single letter ty).compose solution).apply other) := by
              rw [Substitution.apply_compose]
            _ = substitution.apply other :=
              absorbs other
        exact ⟨⟨absorbsSingle,
          (Equations.solvedBy_instantiate_iff absorbsSingle).mp restSolved⟩,
          absorbsBefore⟩
  | functions domain range otherDomain otherRange rest solution =>
      simp [Substitution.apply, and_assoc]
  | products factors others rest solution sameLength =>
      simp only [Equations.solvedBy_cons_iff,
        Equations.solvedBy_zip_append_iff sameLength]

/-- A run keeps the invariant and what solves its first state. -/
theorem unifyRun_sound
    {known : List Char}
    {first last : Unification}
    (run : ReflTransGen UnifyStep first last)
    (sound : first.Sound known) :
    last.Sound known ∧
      ∀ substitution, first.SolvedBy substitution ↔ last.SolvedBy substitution := by
  induction run with
  | refl =>
      exact ⟨sound, fun substitution => Iff.rfl⟩
  | tail _ step inductionHypothesis =>
      obtain ⟨soundBefore, sameSolutions⟩ := inductionHypothesis
      exact ⟨step.sound soundBefore, fun substitution =>
        (sameSolutions substitution).trans (step.solvedBy_iff soundBefore)⟩

/-- The equation between two types, with nothing found so far. -/
theorem Unification.sound_start (left right : Ty) :
    Unification.Sound (left.letters ++ right.letters) ([(left, right)], .empty) where
  resolved := Substitution.resolved_empty
  eliminated letter _ := Substitution.get?_empty letter
  equationsKnown letter member := by
    simpa [Equations.letters] using member
  solutionKnown letter image found := by
    simp at found

/-- An alignment is found by unification of the two types. -/
theorem unify_of_align
    {left right : Ty}
    {alignment : Substitution}
    (aligned : left.align right = .ok alignment) :
    unify [(left, right)] .empty = .ok alignment := by
  unfold align at aligned
  split at aligned
  · next solution solved =>
      cases aligned
      exact solved
  · cases aligned
  · cases aligned

/--
The alignment of two types is their most general unifier. It makes them the
same, changes nothing when it is applied again, replaces only variables of
the two types by types with such variables, and every substitution that makes
the two types the same absorbs it.
-/
theorem align_mostGeneral
    {left right : Ty}
    {alignment : Substitution}
    (aligned : left.align right = .ok alignment) :
    alignment.apply left = alignment.apply right ∧
      (∀ ty, alignment.apply (alignment.apply ty) = alignment.apply ty) ∧
      (∀ entry ∈ alignment.entries,
        (entry.1 ∈ left.letters ∨ entry.1 ∈ right.letters) ∧
          ∀ letter ∈ entry.2.letters,
            letter ∈ left.letters ∨ letter ∈ right.letters) ∧
      ∀ unifier : Substitution, unifier.apply left = unifier.apply right →
        ∀ ty, unifier.apply (alignment.apply ty) = unifier.apply ty := by
  have run := unifyRun_of_unify (unify_of_align aligned)
  obtain ⟨sound, sameSolutions⟩ :=
    unifyRun_sound run (Unification.sound_start left right)
  have solvedBy_iff (substitution : Substitution) :
      substitution.apply left = substitution.apply right ↔
        substitution.Absorbs alignment := by
    simpa [Unification.SolvedBy, Substitution.absorbs_empty] using
      sameSolutions substitution
  have idempotent : alignment.Absorbs alignment := sound.resolved.absorbs_self
  refine ⟨(solvedBy_iff alignment).mpr idempotent, idempotent, ?_,
    fun unifier solved => (solvedBy_iff unifier).mp solved⟩
  rintro ⟨letter, image⟩ member
  have found := Substitution.mem_entries_iff.mp member
  simpa using sound.solutionKnown letter image found

/-- The type <'a,<'b×'c,'a>>. -/
def sharedLeft : Ty :=
  .fn (.var 'a') (.fn (.prod [.var 'b', .var 'c']) (.var 'a'))

/-- The type <'b,<'c×<e,t>,'d>>. -/
def sharedRight : Ty :=
  .fn (.var 'b') (.fn (.prod [.var 'c', .predicate .entity]) (.var 'd'))

/-- A chain of variables that both types share is followed to its end. -/
theorem align_mostGeneral_sharedVariables :
    ∃ alignment,
      sharedLeft.align sharedRight = .ok alignment ∧
        alignment.get? 'a' = some (.predicate .entity) ∧
        alignment.apply sharedLeft = alignment.apply sharedRight ∧
        (∀ ty, alignment.apply (alignment.apply ty) = alignment.apply ty) ∧
        ∀ unifier : Substitution,
          unifier.apply sharedLeft = unifier.apply sharedRight →
            ∀ ty, unifier.apply (alignment.apply ty) = unifier.apply ty := by
  have unified :
      ∃ alignment,
        unify [(sharedLeft, sharedRight)] .empty = .ok alignment ∧
          alignment.get? 'a' = some (.predicate .entity) := by
    simp [sharedLeft, sharedRight, unify, letters, Equations.instantiate,
      Substitution.apply, Substitution.applyAll, Substitution.get?_compose,
      predicate, entity, truth]
  obtain ⟨alignment, solved, found⟩ := unified
  have aligned : sharedLeft.align sharedRight = .ok alignment := by
    unfold align
    rw [solved]
  obtain ⟨same, idempotent, _, mostGeneral⟩ := align_mostGeneral aligned
  exact ⟨alignment, aligned, found, same, idempotent, mostGeneral⟩

end TypedLambda.Ty
