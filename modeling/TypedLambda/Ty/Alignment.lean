import TypedLambda.Ty.Substitution
import TypedLambda.TypeError

namespace TypedLambda.Ty

/-!
# Aligning types

Two types are aligned by a substitution that makes them equal. It is found by
working off a list of equations from the front: equations between function
types or products give way to equations between their parts, and an equation
for a variable is substituted into the rest of the list and into the
substitution found so far. The list shrinks, or it loses a variable for good,
so the work comes to an end.

A function and its argument have separate type variables, even where these
share a letter. `renameApart` moves the shared ones out of the way, and
`applyTo` gives the type of an application.
-/

open Sorting (distinct)

/-- Why two types cannot be made equal. -/
inductive Conflict where
  /-- The types have different forms in one place. -/
  | clash
  /-- The variable is a proper part of the type it would stand for. -/
  | occurs (letter : Char) (ty : Ty)
  deriving Repr, DecidableEq

/-- A list of equations between types. -/
abbrev Equations := List (Ty × Ty)

namespace Equations

/-- Every variable occurrence in a list of equations. -/
def letters (equations : Equations) : List Char :=
  equations.flatMap fun equation => equation.1.letters ++ equation.2.letters

/-- The number of constructors in a list of equations. -/
def size (equations : Equations) : Nat :=
  equations.foldr (fun equation total => equation.1.size + equation.2.size + total) 0

/-- The distinct variables of a list of equations, and then its size. -/
def measure (equations : Equations) : Nat × Nat :=
  ((distinct equations.letters).length, equations.size)

/-- Substitute into both sides of every equation. -/
def instantiate
    (substitution : Substitution)
    (equations : Equations) :
    Equations :=
  equations.map fun equation => (substitution.apply equation.1, substitution.apply equation.2)

end Equations

/-- Where the variables of a substituted type come from. -/
theorem mem_letters_apply_single
    {letter other : Char}
    {replacement ty : Ty}
    (member : other ∈ ((Substitution.single letter replacement).apply ty).letters) :
    (other ∈ ty.letters ∧ other ≠ letter) ∨
      (other ∈ replacement.letters ∧ letter ∈ ty.letters) := by
  induction ty with
  | atom _ =>
      simp [Substitution.apply, letters] at member
  | var name =>
      by_cases same : name = letter
      · subst same
        simp only [Substitution.apply, Substitution.get?_single, ↓reduceIte,
          Option.getD_some] at member
        exact .inr ⟨member, by simp [letters]⟩
      · simp only [Substitution.apply, Substitution.get?_single, same, ↓reduceIte,
          Option.getD_none, letters, List.mem_singleton] at member
        subst member
        exact .inl ⟨by simp [letters], same⟩
  | fn domain range domainHypothesis rangeHypothesis =>
      simp only [Substitution.apply, letters, List.mem_append] at member ⊢
      rcases member with member | member
      · rcases domainHypothesis member with ⟨kept, different⟩ | ⟨new, replaced⟩
        · exact .inl ⟨.inl kept, different⟩
        · exact .inr ⟨new, .inl replaced⟩
      · rcases rangeHypothesis member with ⟨kept, different⟩ | ⟨new, replaced⟩
        · exact .inl ⟨.inr kept, different⟩
        · exact .inr ⟨new, .inr replaced⟩
  | prod factors inductionHypothesis =>
      rw [Substitution.apply, Substitution.applyAll_eq_map, mem_letters_prod] at member
      obtain ⟨image, isImage, member⟩ := member
      obtain ⟨factor, isFactor, rfl⟩ := List.mem_map.mp isImage
      rcases inductionHypothesis factor isFactor member with ⟨kept, different⟩ | ⟨new, replaced⟩
      · exact .inl ⟨mem_letters_prod.mpr ⟨factor, isFactor, kept⟩, different⟩
      · exact .inr ⟨new, mem_letters_prod.mpr ⟨factor, isFactor, replaced⟩⟩

/-- Solving an equation for a variable removes the variable from the others. -/
theorem length_letters_instantiate_lt
    {letter : Char}
    {ty : Ty}
    {rest equations : Equations}
    (acyclic : letter ∉ ty.letters)
    (known : ∀ other ∈ ty.letters, other ∈ equations.letters)
    (included : ∀ other ∈ rest.letters, other ∈ equations.letters)
    (present : letter ∈ equations.letters) :
    (distinct (rest.instantiate (.single letter ty)).letters).length <
      (distinct equations.letters).length := by
  refine Sorting.length_distinct_lt (fun other member => ?_) present
  simp only [Equations.letters, Equations.instantiate, List.mem_flatMap, List.mem_map,
    List.mem_append] at member
  obtain ⟨_, ⟨equation, isEquation, rfl⟩, member⟩ := member
  have source :
      (∃ side, (side = equation.1 ∨ side = equation.2) ∧
        other ∈ ((Substitution.single letter ty).apply side).letters) := by
    rcases member with member | member
    · exact ⟨equation.1, .inl rfl, member⟩
    · exact ⟨equation.2, .inr rfl, member⟩
  obtain ⟨side, isSide, member⟩ := source
  rcases mem_letters_apply_single member with ⟨kept, different⟩ | ⟨new, _⟩
  · refine ⟨included other ?_, different⟩
    refine List.mem_flatMap.mpr ⟨equation, isEquation, ?_⟩
    rcases isSide with rfl | rfl
    · exact List.mem_append_left _ kept
    · exact List.mem_append_right _ kept
  · exact ⟨known other new, fun same => acyclic (same ▸ new)⟩

/-- Equating products factor by factor brings in no variable. -/
theorem letters_zip_subset
    {lefts rights : List Ty}
    {other : Char}
    (member : other ∈ Equations.letters (lefts.zip rights)) :
    other ∈ lettersOfAll lefts ∨ other ∈ lettersOfAll rights := by
  simp only [Equations.letters, List.mem_flatMap, List.mem_append] at member
  obtain ⟨⟨left, right⟩, isPair, member⟩ := member
  obtain ⟨isLeft, isRight⟩ := List.of_mem_zip isPair
  rw [lettersOfAll_eq_flatMap, lettersOfAll_eq_flatMap, List.mem_flatMap, List.mem_flatMap]
  exact member.imp (fun occurs => ⟨left, isLeft, occurs⟩) (fun occurs => ⟨right, isRight, occurs⟩)

/-- Equating products factor by factor leaves out the two products themselves. -/
theorem size_zip_le (lefts rights : List Ty) :
    Equations.size (lefts.zip rights) ≤ sizeOfAll lefts + sizeOfAll rights := by
  induction lefts generalizing rights with
  | nil =>
      simp [Equations.size]
  | cons left lefts inductionHypothesis =>
      cases rights with
      | nil =>
          simp [Equations.size]
      | cons right rights =>
          have bound := inductionHypothesis rights
          simp only [Equations.size, List.zip_cons_cons, List.foldr_cons, sizeOfAll] at bound ⊢
          omega

/-- Equations that bring in no variable come closer to an end by their size. -/
theorem measure_lt_of_size_lt
    {smaller larger : Equations}
    (included : ∀ other ∈ smaller.letters, other ∈ larger.letters)
    (lighter : smaller.size < larger.size) :
    Prod.Lex (· < ·) (· < ·) smaller.measure larger.measure := by
  rcases Nat.lt_or_eq_of_le (Sorting.length_distinct_le included) with fewer | same
  · exact .left _ _ fewer
  · unfold Equations.measure
    rw [same]
    exact .right _ lighter

/-- Solving an equation for a variable comes closer to an end. -/
theorem measure_lt_of_solved
    {letter : Char}
    {ty : Ty}
    {rest equations : Equations}
    (acyclic : letter ∉ ty.letters)
    (known : ∀ other ∈ ty.letters, other ∈ equations.letters)
    (included : ∀ other ∈ rest.letters, other ∈ equations.letters)
    (present : letter ∈ equations.letters) :
    Prod.Lex (· < ·) (· < ·)
      (Equations.instantiate (.single letter ty) rest).measure equations.measure :=
  .left _ _ (length_letters_instantiate_lt acyclic known included present)

/-- The sizes of two lists of equations add up. -/
theorem size_append (first second : Equations) :
    Equations.size (first ++ second) = Equations.size first + Equations.size second := by
  induction first with
  | nil =>
      simp [Equations.size]
  | cons equation rest inductionHypothesis =>
      simp only [Equations.size, List.cons_append, List.foldr_cons] at inductionHypothesis ⊢
      omega

/-- Solve the equations in turn, extending the substitution found so far. -/
def unify : Equations → Substitution → Except Conflict Substitution
  | [], solution => .ok solution
  | (.var letter, ty) :: rest, solution =>
      if ty = .var letter then
        unify rest solution
      else if letter ∈ ty.letters then
        .error (.occurs letter ty)
      else
        unify (Equations.instantiate (.single letter ty) rest)
          ((Substitution.single letter ty).compose solution)
  | (ty, .var letter) :: rest, solution =>
      if letter ∈ ty.letters then
        .error (.occurs letter ty)
      else
        unify (Equations.instantiate (.single letter ty) rest)
          ((Substitution.single letter ty).compose solution)
  | (.atom left, .atom right) :: rest, solution =>
      if left = right then unify rest solution else .error .clash
  | (.fn domain range, .fn otherDomain otherRange) :: rest, solution =>
      unify ((domain, otherDomain) :: (range, otherRange) :: rest) solution
  | (.prod factors, .prod others) :: rest, solution =>
      if factors.length = others.length then
        unify (factors.zip others ++ rest) solution
      else
        .error .clash
  | _ :: _, _ => .error .clash
termination_by equations => Equations.measure equations
decreasing_by
  · refine measure_lt_of_size_lt (fun other member => ?_) ?_
    · exact List.mem_append_right _ member
    · simp only [Equations.size, List.foldr_cons, Ty.size]
      omega
  · next acyclic =>
      refine measure_lt_of_solved acyclic (fun other member => ?_) (fun other member => ?_) ?_
      · simp [Equations.letters, member]
      · exact List.mem_append_right _ member
      · simp [Equations.letters, Ty.letters]
  · next acyclic =>
      refine measure_lt_of_solved acyclic (fun other member => ?_) (fun other member => ?_) ?_
      · simp [Equations.letters, member]
      · exact List.mem_append_right _ member
      · simp [Equations.letters, Ty.letters]
  · refine measure_lt_of_size_lt (fun other member => ?_) ?_
    · exact List.mem_append_right _ member
    · simp only [Equations.size, List.foldr_cons, Ty.size]
      omega
  · refine measure_lt_of_size_lt (fun other member => ?_) ?_
    · simp only [Equations.letters, List.flatMap_cons, List.mem_append, Ty.letters] at member ⊢
      grind
    · simp only [Equations.size, List.foldr_cons, Ty.size]
      omega
  · refine measure_lt_of_size_lt (fun other member => ?_) ?_
    · have split :
          other ∈ Equations.letters (factors.zip others) ∨ other ∈ Equations.letters rest := by
        simpa [Equations.letters] using member
      rcases split with member | member
      · refine List.mem_append_left _ ?_
        rcases letters_zip_subset member with member | member
        · exact List.mem_append_left _ member
        · exact List.mem_append_right _ member
      · exact List.mem_append_right _ member
    · have bound := size_zip_le factors others
      have parts := size_append (factors.zip others) rest
      simp only [Equations.size, List.foldr_cons, Ty.size] at bound parts ⊢
      omega

/--
The substitution that makes two types equal.

A conflict in any place is reported as one between the whole types, the left
one being the type expected.
-/
def align (left right : Ty) : Except TypeError Substitution :=
  match unify [(left, right)] .empty with
  | .ok solution => .ok solution
  | .error .clash => .error (.mismatch left right)
  | .error (.occurs letter ty) => .error (.infinite letter ty)

/-- The names for variables that have to move: a to z, then A to Z. -/
def freshLetters : List Char :=
  (List.range 26).map (fun index => Char.ofNat (97 + index)) ++
    (List.range 26).map (fun index => Char.ofNat (65 + index))

/--
Move the variables that a type shares with another one to letters that occur
in neither, as far as there are such letters.
-/
def renameApart (ty other : Ty) : Substitution :=
  let shared := ty.letterListing.filter (· ∈ other.letters)
  let unused := freshLetters.filter fun letter =>
    letter ∉ ty.letters ∧ letter ∉ other.letters
  .ofList (shared.zip (unused.map .var))

/--
The type of applying a function to an argument of a given type, with the
alignment that it takes. The function itself appears in errors only.
-/
def applyTo
    [ToString Shown]
    (function argument : Ty)
    (shown : Shown) :
    Except TypeError (Ty × Substitution) :=
  match function with
  | .fn domain range => do
      let renamed := (argument.renameApart function).apply argument
      let alignment ← domain.align renamed
      return (alignment.apply range, alignment)
  | _ => .error (.notFunction (toString shown) function)

end TypedLambda.Ty
