import TypedLambda.Proofs.Nameless.StrongNormalisation
import TypedLambda.Proofs.Typing.Substitution

namespace TypedLambda.Term

namespace Nameless

/-!
# Reducible terms

That every reduction of a typed term ends does not follow from the size of the
term or of its type, because a contraction can copy redexes and make new ones.
It follows from a stronger property that is said by recursion on the type: a
function is reducible if it takes reducible arguments to reducible values.
Reducible terms cannot be reduced for ever, and every typed term is reducible
once reducible terms stand in the place of its bound variables.
-/

/-- A function takes reducible arguments to reducible values; others only have to end. -/
def Reducible : Ty → Nameless → Prop
  | .fn domain range, term =>
      ∀ argument, Reducible domain argument → Reducible range (.app term argument)
  | .atom _, term => StronglyNormalising term
  | .var _, term => StronglyNormalising term
  | .prod _, term => StronglyNormalising term

/-- The term is no abstraction, so it makes no redex where it is applied. -/
def Neutral (term : Nameless) : Prop :=
  ∀ ty body, term ≠ .bind .lambda ty body

theorem neutral_app (function argument : Nameless) :
    Neutral (.app function argument) := by
  simp [Neutral]

/-- An application of a neutral term is reduced in one of its parts. -/
theorem Neutral.reduces_app
    {function argument after : Nameless}
    (neutral : Neutral function)
    (reduces : Reduces (.app function argument) after) :
    (∃ inner, Reduces function inner ∧ after = .app inner argument) ∨
      ∃ inner, Reduces argument inner ∧ after = .app function inner := by
  rcases reduces_app_iff.mp reduces with ⟨ty, body, isLambda, _⟩ | inParts
  · exact (neutral ty body isLambda).elim
  · exact inParts

/-- What reducible terms of a type have to satisfy for the type to be used in a function type. -/
structure Candidate (ty : Ty) : Prop where
  /-- They cannot be reduced for ever. -/
  stronglyNormalising : ∀ {term}, Reducible ty term → StronglyNormalising term
  /-- They stay reducible when they are reduced. -/
  reduces : ∀ {before after}, Reducible ty before → Reduces before after → Reducible ty after
  /-- A neutral term is one of them if everything that it is reduced to is. -/
  neutral :
    ∀ {term}, Neutral term → (∀ after, Reduces term after → Reducible ty after) →
      Reducible ty term

/-- A free variable is reducible. -/
theorem Candidate.free
    {ty : Ty}
    (candidate : Candidate ty)
    (identifier : Identifier) :
    Reducible ty (.free identifier) :=
  candidate.neutral (by simp [Neutral]) fun after reduces =>
    (not_reduces_free identifier reduces).elim

/-- Terms that cannot be reduced for ever satisfy what reducible terms have to. -/
theorem candidate_of_stronglyNormalising
    {ty : Ty}
    (same : ∀ {term}, Reducible ty term ↔ StronglyNormalising term) :
    Candidate ty where
  stronglyNormalising := same.mp
  reduces reducible reduces := same.mpr ((same.mp reducible).reduces reduces)
  neutral _ ofAfter :=
    same.mpr (Acc.intro _ fun after reduces => same.mp (ofAfter after reduces))

/-- Functions satisfy what reducible terms have to if their arguments and values do. -/
theorem Candidate.fn
    {domain range : Ty}
    (ofDomain : Candidate domain)
    (ofRange : Candidate range) :
    Candidate (.fn domain range) where
  stronglyNormalising {term} reducible := by
    have ofVariable : Reducible domain (.free ⟨"x", domain⟩) := ofDomain.free _
    have ofValue := ofRange.stronglyNormalising (reducible _ ofVariable)
    exact ofValue.of_map fun reduces => Reduces.function _ reduces
  reduces reducible reduces argument ofArgument :=
    ofRange.reduces (reducible argument ofArgument) (.function argument reduces)
  neutral {term} neutral ofAfter argument ofArgument := by
    induction ofDomain.stronglyNormalising ofArgument with
    | intro argument _ inductionHypothesis =>
        refine ofRange.neutral (neutral_app term argument) fun after reduces => ?_
        rcases neutral.reduces_app reduces with
          ⟨inner, inTerm, rfl⟩ | ⟨inner, inArgument, rfl⟩
        · exact ofAfter inner inTerm argument ofArgument
        · exact inductionHypothesis inner inArgument
            (ofDomain.reduces ofArgument inArgument)

/-- The reducible terms of every type satisfy what they have to. -/
theorem candidate (ty : Ty) : Candidate ty := by
  induction ty with
  | atom letter =>
      exact candidate_of_stronglyNormalising (by simp [Reducible])
  | var letter =>
      exact candidate_of_stronglyNormalising (by simp [Reducible])
  | fn domain range domainHypothesis rangeHypothesis =>
      exact .fn domainHypothesis rangeHypothesis
  | prod factors =>
      exact candidate_of_stronglyNormalising (by simp [Reducible])

namespace Reducible

variable {ty : Ty} {term : Nameless}

theorem stronglyNormalising (reducible : Reducible ty term) :
    StronglyNormalising term :=
  (candidate ty).stronglyNormalising reducible

theorem reduces
    {after : Nameless}
    (reducible : Reducible ty term)
    (reduces : Reduces term after) :
    Reducible ty after :=
  (candidate ty).reduces reducible reduces

@[simp] theorem truth_iff :
    Reducible .truth term ↔ StronglyNormalising term := by
  simp [Ty.truth, Reducible]

/-- If a body with a term filled in cannot be reduced for ever, the body cannot be. -/
theorem stronglyNormalising_body
    {body argument : Nameless}
    (reducible : Reducible ty (body.instantiate argument)) :
    StronglyNormalising body :=
  reducible.stronglyNormalising.of_map fun reduces => reduces.instantiate argument

/-- An abstraction is reducible if its body is for every reducible argument. -/
theorem lambda
    {domain range bound : Ty}
    {body : Nameless}
    (ofBody :
      ∀ argument, Reducible domain argument →
        Reducible range (body.instantiate argument)) :
    Reducible (.fn domain range) (.bind .lambda bound body) := by
  have ofVariable : Reducible domain (.free ⟨"x", domain⟩) := (candidate domain).free _
  intro argument ofArgument
  -- Both parts may be reduced in turn before the contraction takes place.
  induction (ofBody _ ofVariable).stronglyNormalising_body generalizing argument with
  | intro body bodyInner bodyHypothesis =>
      induction ofArgument.stronglyNormalising with
      | intro argument _ argumentHypothesis =>
          refine (candidate range).neutral (neutral_app _ argument) fun after reduces => ?_
          rcases reduces_app_iff.mp reduces with
            ⟨ty, inner, same, rfl⟩ | ⟨inner, inFunction, rfl⟩ | ⟨inner, inArgument, rfl⟩
          · cases same
            exact ofBody argument ofArgument
          · obtain ⟨bodyAfter, inBody, rfl⟩ := reduces_bind_iff.mp inFunction
            refine bodyHypothesis bodyAfter inBody (fun other ofOther => ?_)
              argument ofArgument
            exact (ofBody other ofOther).reduces (inBody.instantiate other)
          · exact argumentHypothesis inner inArgument (ofArgument.reduces inArgument)

/-- A binder other than an abstraction is reducible if its body cannot be reduced for ever. -/
theorem bind
    {binder : Binder}
    {bound : Ty}
    {body : Nameless}
    (notLambda : binder ≠ .lambda)
    (ofBody : StronglyNormalising body) :
    Reducible ty (.bind binder bound body) := by
  induction ofBody with
  | intro body _ inductionHypothesis =>
      refine (candidate ty).neutral (by simp [Neutral, notLambda]) fun after reduces => ?_
      obtain ⟨inner, inBody, rfl⟩ := reduces_bind_iff.mp reduces
      exact inductionHypothesis inner inBody

/-- A constant is reducible. -/
theorem const (identifier : Identifier) : Reducible ty (.const identifier) :=
  (candidate ty).neutral (by simp [Neutral]) fun after reduces =>
    (not_reduces_const identifier reduces).elim

end Reducible

/-- Reducible terms for the names bound around a place, each of the type it is bound with. -/
def Interprets (images : Images) (scope : Scope) (names : List String) : Prop :=
  ∀ name index, names.idxOf? name = some index →
    ∃ ty, scope name = some ty ∧ Reducible ty (images index ty)

/-- A reducible term for the innermost binder goes with those for the binders further out. -/
theorem Interprets.extend
    {images : Images}
    {scope : Scope}
    {names : List String}
    (interprets : Interprets images scope names)
    {bound : Identifier}
    {argument : Nameless}
    (reducible : Reducible bound.ty argument) :
    Interprets (extend argument images) (scope.enter bound) (bound.name :: names) := by
  intro name index found
  rw [List.idxOf?_cons] at found
  by_cases isBound : bound.name = name
  · simp only [isBound, BEq.rfl, ↓reduceIte, Option.some.injEq] at found
    subst found
    exact ⟨bound.ty, by simp [isBound], reducible⟩
  · simp only [beq_iff_eq, isBound, ↓reduceIte, Option.map_eq_some_iff] at found
    obtain ⟨outer, found, rfl⟩ := found
    obtain ⟨ty, inScope, reducible⟩ := interprets name outer found
    exact ⟨ty, by simp [Ne.symm isBound, inScope], reducible⟩

end Nameless

open Nameless (Images Reducible Interprets StronglyNormalising)

/-- A typed term is reducible once reducible terms stand for the variables bound around it. -/
theorem Typed.reducible
    {scope : Scope}
    {names : List String}
    {images : Images}
    {term : Term}
    {ty : Ty}
    (typed : Typed scope term ty)
    (interprets : Interprets images scope names) :
    Reducible ty ((term.namelessIn names).substitute images) := by
  induction term generalizing scope names images ty with
  | var identifier =>
      obtain ⟨_, agrees, rfl⟩ := Typed.var_iff.mp typed
      simp only [namelessIn]
      cases found : names.idxOf? identifier.name with
      | none =>
          exact (Nameless.candidate _).free identifier
      | some index =>
          obtain ⟨bound, inScope, reducible⟩ := interprets _ index found
          exact agrees bound inScope ▸ reducible
  | const identifier =>
      exact .const identifier
  | bind binder bound body inductionHypothesis =>
      obtain ⟨inner, _, inBody, rule⟩ := Typed.bind_iff.mp typed
      -- A reducible argument is one more image that the body is reducible under.
      have filledIn (argument : Nameless) (ofArgument : Reducible bound.ty argument) :
          Reducible inner
            (((body.namelessIn (bound.name :: names)).substitute
              (Nameless.under images)).instantiate argument) := by
        rw [Nameless.instantiate_substitute_under]
        exact inductionHypothesis inBody (interprets.extend ofArgument)
      have bodyEnds := (filledIn _ ((Nameless.candidate _).free bound)).stronglyNormalising_body
      simp only [namelessIn, Nameless.substitute]
      cases rule with
      | lambda =>
          exact .lambda filledIn
      | universal =>
          exact .bind (by simp) bodyEnds
      | existential =>
          exact .bind (by simp) bodyEnds
      | description =>
          exact .bind (by simp) bodyEnds
  | app function argument functionHypothesis argumentHypothesis =>
      obtain ⟨domain, ofFunction, ofArgument⟩ := Typed.app_iff.mp typed
      exact functionHypothesis ofFunction interprets _
        (argumentHypothesis ofArgument interprets)
  | tuple items inductionHypothesis =>
      obtain ⟨factors, ofItems, rfl⟩ := Typed.tuple_iff.mp typed
      simp only [namelessIn, namelessAllIn_eq_map, Nameless.substitute,
        Nameless.substituteAll_eq_map, List.map_map]
      refine StronglyNormalising.tuple ?_
      intro item member
      obtain ⟨source, inItems, rfl⟩ := List.mem_map.mp member
      obtain ⟨before, after, rfl⟩ := List.append_of_mem inItems
      obtain ⟨factor, ofItem, _⟩ := Typed.exists_typed_item ofItems
      exact (inductionHypothesis source inItems ofItem interprets).stronglyNormalising
  | neg operand inductionHypothesis =>
      obtain ⟨ofOperand, rfl⟩ := Typed.neg_iff.mp typed
      exact Reducible.truth_iff.mpr
        (inductionHypothesis ofOperand interprets).stronglyNormalising.neg
  | connect connective left right leftHypothesis rightHypothesis =>
      obtain ⟨ofLeft, ofRight, rfl⟩ := Typed.connect_iff.mp typed
      exact Reducible.truth_iff.mpr
        ((leftHypothesis ofLeft interprets).stronglyNormalising.connect
          (rightHypothesis ofRight interprets).stronglyNormalising)
  | equal left right leftHypothesis rightHypothesis =>
      obtain ⟨side, ofLeft, ofRight, rfl⟩ := Typed.equal_iff.mp typed
      exact Reducible.truth_iff.mpr
        ((leftHypothesis ofLeft interprets).stronglyNormalising.equal
          (rightHypothesis ofRight interprets).stronglyNormalising)
  | relate relation left right leftHypothesis rightHypothesis =>
      obtain ⟨element, ofLeft, ofRight, rfl⟩ := Typed.relate_iff.mp typed
      exact Reducible.truth_iff.mpr
        ((leftHypothesis ofLeft interprets).stronglyNormalising.relate
          (rightHypothesis ofRight interprets).stronglyNormalising)

/-- A typed term cannot be reduced for ever. -/
theorem Typed.stronglyNormalising
    {term : Term}
    {ty : Ty}
    (typed : Typed .empty term ty) :
    StronglyNormalising term.nameless := by
  have nothingBound : Interprets .bound .empty [] := by
    intro name index found
    simp at found
  have reducible := typed.reducible nothingBound
  rw [Nameless.substitute_bound] at reducible
  exact reducible.stronglyNormalising

end TypedLambda.Term
