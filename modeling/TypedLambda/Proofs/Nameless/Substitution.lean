import TypedLambda.Proofs.Alpha.Equivalence

namespace TypedLambda.Term.Nameless

/-!
# Substitution in nameless terms

A bound occurrence whose binder is outside the term is open. Renaming moves
open occurrences to other binders, and substitution puts terms in their place,
all at once. Below a binder the open occurrences count one more, so what takes
their place is moved out of the way of the new binder; nothing can be
captured. Two substitutions in a row are one substitution, and from this it
follows how filling in the place of one binder goes together with the
substitutions around it.
-/

/-- A statement holds of every nameless term if each constructor preserves it. -/
@[induction_eliminator]
theorem induction
    {motive : Nameless → Prop}
    (bound : ∀ index ty, motive (.bound index ty))
    (free : ∀ identifier, motive (.free identifier))
    (const : ∀ identifier, motive (.const identifier))
    (bind : ∀ binder ty body, motive body → motive (.bind binder ty body))
    (app : ∀ function argument, motive function → motive argument →
      motive (.app function argument))
    (tuple : ∀ items, (∀ item ∈ items, motive item) → motive (.tuple items))
    (neg : ∀ operand, motive operand → motive (.neg operand))
    (connect : ∀ connective left right, motive left → motive right →
      motive (.connect connective left right))
    (equal : ∀ left right, motive left → motive right → motive (.equal left right))
    (relate : ∀ relation left right, motive left → motive right →
      motive (.relate relation left right))
    (term : Nameless) :
    motive term :=
  @Nameless.rec motive (fun items => ∀ item ∈ items, motive item)
    bound free const bind app tuple neg connect equal relate
    (fun _ absent => by simp at absent)
    (fun head tail headHolds tailHolds item member => by
      rcases List.mem_cons.mp member with rfl | member
      · exact headHolds
      · exact tailHolds item member)
    term

/-- How open occurrences move, seen from below one more binder. -/
def lift (move : Nat → Nat) : Nat → Nat
  | 0 => 0
  | index + 1 => move index + 1

mutual

/-- Let open occurrences refer to other binders. -/
def rename (move : Nat → Nat) : Nameless → Nameless
  | .bound index ty => .bound (move index) ty
  | .free identifier => .free identifier
  | .const identifier => .const identifier
  | .bind binder ty body => .bind binder ty (body.rename (lift move))
  | .app function argument => .app (function.rename move) (argument.rename move)
  | .tuple items => .tuple (renameAll move items)
  | .neg operand => .neg (operand.rename move)
  | .connect connective left right =>
      .connect connective (left.rename move) (right.rename move)
  | .equal left right => .equal (left.rename move) (right.rename move)
  | .relate relation left right =>
      .relate relation (left.rename move) (right.rename move)

/-- Let the open occurrences in every term of a list refer to other binders. -/
def renameAll (move : Nat → Nat) : List Nameless → List Nameless
  | [] => []
  | term :: rest => term.rename move :: renameAll move rest

end

/-- The same term below one more binder. -/
def shift (term : Nameless) : Nameless :=
  term.rename Nat.succ

/-- What takes the place of open occurrences, by their position and type. -/
abbrev Images := Nat → Ty → Nameless

/-- What takes the place of open occurrences, seen from below one more binder. -/
def under (images : Images) : Images
  | 0, ty => .bound 0 ty
  | index + 1, ty => (images index ty).shift

mutual

/-- Put terms in the place of all open occurrences. -/
def substitute (images : Images) : Nameless → Nameless
  | .bound index ty => images index ty
  | .free identifier => .free identifier
  | .const identifier => .const identifier
  | .bind binder ty body => .bind binder ty (body.substitute (under images))
  | .app function argument =>
      .app (function.substitute images) (argument.substitute images)
  | .tuple items => .tuple (substituteAll images items)
  | .neg operand => .neg (operand.substitute images)
  | .connect connective left right =>
      .connect connective (left.substitute images) (right.substitute images)
  | .equal left right => .equal (left.substitute images) (right.substitute images)
  | .relate relation left right =>
      .relate relation (left.substitute images) (right.substitute images)

/-- Put terms in the place of the open occurrences in every term of a list. -/
def substituteAll (images : Images) : List Nameless → List Nameless
  | [] => []
  | term :: rest => term.substitute images :: substituteAll images rest

end

/-- A term for the innermost binder, and images for those further out. -/
def extend (argument : Nameless) (images : Images) : Images
  | 0, _ => argument
  | index + 1, ty => images index ty

/-- Put a term in the place of the innermost binder's occurrences. -/
def instantiate (body argument : Nameless) : Nameless :=
  body.substitute (extend argument .bound)

section Lists

attribute [local simp] rename renameAll substitute substituteAll

@[simp] theorem renameAll_eq_map (move : Nat → Nat) (terms : List Nameless) :
    renameAll move terms = terms.map (rename move) := by
  induction terms with
  | nil =>
      rfl
  | cons term rest inductionHypothesis =>
      simp [inductionHypothesis]

@[simp] theorem substituteAll_eq_map (images : Images) (terms : List Nameless) :
    substituteAll images terms = terms.map (substitute images) := by
  induction terms with
  | nil =>
      rfl
  | cons term rest inductionHypothesis =>
      simp [inductionHypothesis]

end Lists

/-- Two renamings in a row are one. -/
theorem rename_rename
    (outer inner : Nat → Nat)
    (term : Nameless) :
    (term.rename inner).rename outer = term.rename (outer ∘ inner) := by
  induction term generalizing outer inner with
  | bind binder ty body inductionHypothesis =>
      have lifted : lift outer ∘ lift inner = lift (outer ∘ inner) := by
        funext index
        cases index <;> rfl
      simp only [rename, inductionHypothesis, lifted]
  | tuple items inductionHypothesis =>
      simp only [rename, renameAll_eq_map, List.map_map, Nameless.tuple.injEq]
      exact List.map_congr_left fun item member =>
        inductionHypothesis item member outer inner
  | _ =>
      simp_all [rename]

/-- A substitution after a renaming is a substitution. -/
theorem substitute_rename
    (images : Images)
    (move : Nat → Nat)
    (term : Nameless) :
    (term.rename move).substitute images =
      term.substitute fun index ty => images (move index) ty := by
  induction term generalizing images move with
  | bind binder ty body inductionHypothesis =>
      have lifted :
          (fun index ty => under images (lift move index) ty) =
            under fun index ty => images (move index) ty := by
        funext index ty
        cases index <;> rfl
      simp only [rename, substitute, inductionHypothesis, lifted]
  | tuple items inductionHypothesis =>
      simp only [rename, substitute, renameAll_eq_map, substituteAll_eq_map,
        List.map_map, Nameless.tuple.injEq]
      exact List.map_congr_left fun item member =>
        inductionHypothesis item member images move
  | _ =>
      simp_all [rename, substitute]

/-- A renaming below one more binder goes before or after the move below it. -/
theorem rename_lift_shift
    (move : Nat → Nat)
    (term : Nameless) :
    term.shift.rename (lift move) = (term.rename move).shift := by
  simp only [shift, rename_rename]
  rfl

/-- A renaming after a substitution is a substitution. -/
theorem rename_substitute
    (move : Nat → Nat)
    (images : Images)
    (term : Nameless) :
    (term.substitute images).rename move =
      term.substitute fun index ty => (images index ty).rename move := by
  induction term generalizing images move with
  | bind binder ty body inductionHypothesis =>
      have lifted :
          (fun index ty => (under images index ty).rename (lift move)) =
            under fun index ty => (images index ty).rename move := by
        funext index ty
        cases index with
        | zero =>
            rfl
        | succ outer =>
            exact rename_lift_shift move (images outer ty)
      simp only [rename, substitute, inductionHypothesis, lifted]
  | tuple items inductionHypothesis =>
      simp only [rename, substitute, renameAll_eq_map, substituteAll_eq_map,
        List.map_map, Nameless.tuple.injEq]
      exact List.map_congr_left fun item member =>
        inductionHypothesis item member move images
  | _ =>
      simp_all [rename, substitute]

/-- A substitution below one more binder goes before or after the move below it. -/
theorem substitute_under_shift
    (images : Images)
    (term : Nameless) :
    term.shift.substitute (under images) = (term.substitute images).shift := by
  rw [shift, substitute_rename, shift, rename_substitute]
  rfl

/-- Two substitutions in a row are one. -/
theorem substitute_substitute
    (outer inner : Images)
    (term : Nameless) :
    (term.substitute inner).substitute outer =
      term.substitute fun index ty => (inner index ty).substitute outer := by
  induction term generalizing outer inner with
  | bind binder ty body inductionHypothesis =>
      have lifted :
          (fun index ty => (under inner index ty).substitute (under outer)) =
            under fun index ty => (inner index ty).substitute outer := by
        funext index ty
        cases index with
        | zero =>
            rfl
        | succ place =>
            exact substitute_under_shift outer (inner place ty)
      simp only [substitute, inductionHypothesis, lifted]
  | tuple items inductionHypothesis =>
      simp only [substitute, substituteAll_eq_map, List.map_map,
        Nameless.tuple.injEq]
      exact List.map_congr_left fun item member =>
        inductionHypothesis item member outer inner
  | _ =>
      simp_all [substitute]

/-- Every open occurrence may take its own place. -/
@[simp] theorem substitute_bound (term : Nameless) :
    term.substitute .bound = term := by
  induction term with
  | bind binder ty body inductionHypothesis =>
      have lifted : under .bound = Nameless.bound := by
        funext index ty
        cases index <;> rfl
      simp only [substitute, lifted, inductionHypothesis]
  | tuple items inductionHypothesis =>
      simp only [substitute, substituteAll_eq_map, Nameless.tuple.injEq]
      exact (List.map_congr_left inductionHypothesis).trans (List.map_id _)
  | _ =>
      simp_all [substitute]

/-- A move below one more binder puts the occurrences further away in their own place. -/
theorem shift_eq_substitute (term : Nameless) :
    term.shift = term.substitute fun index ty => .bound (index + 1) ty := by
  calc
    term.shift = (term.substitute .bound).rename Nat.succ := by
      rw [substitute_bound, shift]
    _ = term.substitute fun index ty => .bound (index + 1) ty :=
      rename_substitute Nat.succ .bound term

/-- Nothing is left of a move below a binder once the binder is filled in. -/
@[simp] theorem instantiate_shift (term argument : Nameless) :
    term.shift.instantiate argument = term := by
  rw [instantiate, shift, substitute_rename]
  exact substitute_bound term

/-- Filling in the innermost binder completes a substitution made below it. -/
theorem instantiate_substitute_under
    (images : Images)
    (body argument : Nameless) :
    (body.substitute (under images)).instantiate argument =
      body.substitute (extend argument images) := by
  have completed :
      (fun index ty => (under images index ty).substitute (extend argument .bound)) =
        extend argument images := by
    funext index ty
    cases index with
    | zero =>
        rfl
    | succ place =>
        exact instantiate_shift (images place ty) argument
  rw [instantiate, substitute_substitute, completed]

/-- A substitution goes through the filling in of the innermost binder. -/
theorem substitute_instantiate
    (images : Images)
    (body argument : Nameless) :
    (body.instantiate argument).substitute images =
      (body.substitute (under images)).instantiate (argument.substitute images) := by
  have completed :
      (fun index ty => (extend argument .bound index ty).substitute images) =
        extend (argument.substitute images) images := by
    funext index ty
    cases index <;> rfl
  rw [instantiate_substitute_under, instantiate, substitute_substitute, completed]

end TypedLambda.Term.Nameless
