import TypedLambda.Proofs.Term.RoundTrip
import TypedLambda.Proofs.Ty.Solvability
import TypedLambda.Proofs.Typing.AnnotatedRenaming
import TypedLambda.Proofs.Typing.ReadTerms
import TypedLambda.Proofs.Typing.SameType

namespace TypedLambda

/-!
# Contraction and type variables

An abstraction has the type that its body has while the type of its variable
may still contain type variables. A contraction specialises the body to the
argument, and the specialised body need not have the type that the body had,
or any type at all. It is typed before as it is after if the body, specialised,
is put in the place of the redex; and where the variable and the argument have
types without variables, nothing is specialised and the type stays.
-/

open Term (SameType)

namespace Scope

/-- The types with their variables replaced. -/
def instantiate (substitution : Ty.Substitution) (scope : Scope) : Scope :=
  fun name => (scope name).map substitution.apply

/-- A binder is entered before or after the variables of types are replaced. -/
theorem instantiate_enter
    (substitution : Ty.Substitution)
    (scope : Scope)
    (bound : Identifier) :
    (scope.enter bound).instantiate substitution =
      (scope.instantiate substitution).enter (bound.instantiate substitution) := by
  funext name
  simp only [instantiate, enter_apply, Identifier.instantiate]
  split <;> rfl

end Scope

/-- The empty substitution leaves an identifier as it is. -/
@[simp] theorem Identifier.instantiate_empty (identifier : Identifier) :
    identifier.instantiate .empty = identifier := by
  rw [instantiate, Ty.Substitution.apply_empty]

namespace Term

/-- Occurrences of bound variables carry their binders' types after an instantiation as well. -/
theorem AnnotatedIn.instantiate
    {scope : Scope}
    {term : Term}
    (annotated : term.AnnotatedIn scope)
    (substitution : Ty.Substitution) :
    (term.instantiate substitution).AnnotatedIn (scope.instantiate substitution) := by
  induction term generalizing scope with
  | var identifier =>
      intro ty isBound
      obtain ⟨carried, isCarried, rfl⟩ := Option.map_eq_some_iff.mp isBound
      exact congrArg substitution.apply (annotated carried isCarried)
  | const identifier =>
      trivial
  | bind binder bound body inductionHypothesis =>
      have inBody := inductionHypothesis annotated
      rw [Scope.instantiate_enter] at inBody
      exact inBody
  | tuple items inductionHypothesis =>
      simp only [AnnotatedIn, allAnnotatedIn_iff_forall] at annotated
      simp only [Term.instantiate, instantiateAll_eq_map, AnnotatedIn,
        allAnnotatedIn_iff_forall, List.forall_mem_map]
      exact fun item member => inductionHypothesis item member (annotated item member)
  | neg operand inductionHypothesis =>
      exact inductionHypothesis annotated
  | app _ _ firstHypothesis secondHypothesis
  | connect _ _ _ firstHypothesis secondHypothesis
  | equal _ _ firstHypothesis secondHypothesis
  | relate _ _ _ firstHypothesis secondHypothesis =>
      exact ⟨firstHypothesis annotated.1, secondHypothesis annotated.2⟩

/-- The empty substitution leaves a term as it is. -/
theorem instantiate_empty (term : Term) : term.instantiate .empty = term := by
  induction term with
  | tuple items inductionHypothesis =>
      rw [instantiate, instantiateAll_eq_map, Term.tuple.injEq]
      exact (List.map_congr_left inductionHypothesis).trans (List.map_id _)
  | _ =>
      simp_all [instantiate]

end Term

/-- Nothing has to move out of the way in a type without variables. -/
theorem Ty.Ground.renameApart_eq_empty
    {ty : Ty}
    (ground : ty.Ground)
    (other : Ty) :
    ty.renameApart other = .empty := by
  have noLetters : ty.letterListing = [] := by
    rw [letterListing, ground]
    rfl
  rw [renameApart, noLetters]
  rfl

namespace Redex

/-- The redex with the argument's type variables kept apart and the alignment put in. -/
def specialise (redex : Redex) : Except TypeError Redex := do
  let functionType ← redex.function.typeOf
  let argumentType ← redex.argument.typeOf
  let argument := redex.apartArgument functionType argumentType
  let apartType ← argument.typeOf
  let (_, alignment) ← functionType.applyTo apartType redex.function
  return ⟨redex.bound.instantiate alignment, redex.body.instantiate alignment,
    argument.instantiate alignment⟩

variable {redex specialised : Redex} {contraction : Contraction}

/-- A contraction puts the specialised argument into the specialised body. -/
theorem exists_specialise_of_contract
    (contracted : redex.contract = .ok contraction)
    (beta : contraction.kind = .beta) :
    ∃ specialised,
      redex.specialise = .ok specialised ∧
        contraction.result =
          Term.substitute specialised.bound.name specialised.argument specialised.body := by
  obtain ⟨_, _, _, _, _, ofFunction, ofArgument, ofApart, applied, safe | capturing⟩ :=
    contract_cases contracted
  · simp only [specialise, ofFunction, ofArgument, ofApart, applied, Outcome.ok_bind]
    exact ⟨_, rfl, safe.2.2⟩
  · rw [capturing.2.1] at beta
    cases beta

/-- A redex that can be specialised and captures nothing is contracted. -/
theorem exists_contract_of_specialise
    (isSpecialised : redex.specialise = .ok specialised)
    (safe : ¬redex.Captures) :
    ∃ contraction,
      redex.contract = .ok contraction ∧
        contraction.kind = .beta ∧
        contraction.result =
          Term.substitute specialised.bound.name specialised.argument specialised.body := by
  have parts := isSpecialised
  simp only [specialise, Outcome.bind_eq_ok_iff] at parts
  obtain ⟨_, ofFunction, _, ofArgument, _, ofApart, ⟨_, _⟩, applied, _⟩ := parts
  obtain ⟨contraction, contracted⟩ :=
    exists_contract_eq_ok ofFunction ofArgument ofApart applied
  obtain ⟨_, _, _, _, _, _, _, _, _, isBeta | capturing⟩ := contract_cases contracted
  · obtain ⟨_, same, result⟩ := exists_specialise_of_contract contracted isBeta.2.1
    rw [isSpecialised, Except.ok.injEq] at same
    subst same
    exact ⟨contraction, contracted, isBeta.2.1, result⟩
  · exact (safe capturing.1).elim

/-- The body of an annotated redex is annotated when it has been specialised. -/
theorem annotated_specialise
    {scope : Scope}
    (annotated : redex.toTerm.AnnotatedIn scope)
    (specialises : redex.specialise = .ok specialised) :
    ∃ inner : Scope,
      specialised.body.AnnotatedIn inner ∧
        inner specialised.bound.name = some specialised.bound.ty := by
  simp only [specialise, Outcome.bind_eq_ok_iff, Outcome.pure_eq_ok_iff] at specialises
  obtain ⟨_, _, _, _, _, _, ⟨_, alignment⟩, _, rfl⟩ := specialises
  have inBody : redex.body.AnnotatedIn (scope.enter redex.bound) := annotated.1
  exact ⟨_, inBody.instantiate alignment, by simp [Scope.instantiate, Identifier.instantiate]⟩

/-- An argument that has the type of the variable makes no difference to the type of the body. -/
theorem sameType_specialise
    {scope : Scope}
    (annotated : redex.toTerm.AnnotatedIn scope)
    (isSpecialised : redex.specialise = .ok specialised)
    (fits : specialised.argument.typeOf = .ok specialised.bound.ty) :
    SameType
      (Term.substitute specialised.bound.name specialised.argument specialised.body)
      specialised.body := by
  obtain ⟨_, inBody, isBound⟩ := annotated_specialise annotated isSpecialised
  exact inBody.sameType_substitute isBound fits

/-- Without type variables in the types of the variable and the argument nothing is specialised. -/
theorem specialise_eq_self_of_ground
    {argumentType : Ty}
    (isSpecialised : redex.specialise = .ok specialised)
    (groundBound : redex.bound.ty.Ground)
    (ofArgument : redex.argument.typeOf = .ok argumentType)
    (groundArgument : argumentType.Ground) :
    specialised = redex ∧
      argumentType = redex.bound.ty ∧
      ∃ inner, redex.body.typeOf = .ok inner ∧ redex.toTerm.typeOf = .ok inner := by
  have sameArgument (functionType : Ty) :
      redex.apartArgument functionType argumentType = redex.argument := by
    rw [apartArgument, groundArgument.renameApart_eq_empty, Term.instantiate_empty]
  simp only [specialise, Outcome.bind_eq_ok_iff, Outcome.pure_eq_ok_iff, ofArgument,
    Outcome.ok_bind, sameArgument] at isSpecialised
  obtain ⟨_, ofFunction, ⟨ty, alignment⟩, applied, rfl⟩ := isSpecialised
  obtain ⟨inner, ofBody, rfl⟩ := Term.typeOf_lambda_eq_ok_iff.mp ofFunction
  obtain ⟨_, _, ⟨⟩, aligned, rfl⟩ := Ty.applyTo_eq_ok_iff.mp applied
  have solved := aligned
  rw [groundArgument.apply_eq_self,
    Ty.align_ground_eq_ok_iff groundBound groundArgument] at solved
  obtain ⟨sameType, rfl⟩ := solved
  refine ⟨?_, sameType.symm, inner, ofBody, ?_⟩
  · rw [Term.instantiate_empty, Term.instantiate_empty, Identifier.instantiate_empty]
  · exact Term.typeOf_app_eq_ok_iff.mpr
      ⟨_, _, _, _, ofFunction, ofArgument, aligned, Ty.Substitution.apply_empty inner⟩

end Redex

namespace Term

/--
What a step does to the type of a term that has been read. A renaming keeps it.
After a contraction, if the specialised argument has the type of the specialised
variable, the term is typed as it would be with the specialised body in the
place of the redex, so its type stays if the redex has the type of that body.
Without type variables in the types of the variable and the argument all this
is given.
-/
theorem typeOf_step_of_read
    {options : ReadingOptions}
    {text : String}
    {term : Term}
    {ty : Ty}
    {step : Step}
    (result : read options text = .ok term)
    (typed : term.typeOf = .ok ty)
    (stepped : term.step? = .ok (some step)) :
    (step.kind = .alpha → step.result.typeOf = .ok ty) ∧
      ∀ place : PlacedRedex, term.leftmostRedex? = some place → step.kind = .beta →
        (∀ specialised : Redex,
          place.redex.specialise = .ok specialised →
            specialised.argument.typeOf = .ok specialised.bound.ty →
              SameType step.result (place.replace specialised.body) ∧
                (SameType specialised.body place.redex.toTerm →
                  step.result.typeOf = .ok ty)) ∧
        (∀ argumentType : Ty,
          place.redex.bound.ty.Ground →
            place.redex.argument.typeOf = .ok argumentType →
              argumentType.Ground →
                step.result.typeOf = .ok ty) := by
  have annotated : term.AnnotatedIn .empty := annotated_of_read result
  constructor
  · intro alpha
    exact ((annotated.alphaEq_of_alpha stepped alpha).sameType ty).mp typed
  · intro place found beta
    obtain ⟨_, contraction, isPlace, contracted, rfl⟩ := step?_cases stepped
    rw [found, Option.some.injEq] at isPlace
    subst isPlace
    obtain ⟨whole, _⟩ := isLeftmost_of_leftmostRedex? found
    subst whole
    obtain ⟨_, inRedex, _⟩ := annotated.exists_part
    obtain ⟨specialised, isSpecialised, isResult⟩ :=
      Redex.exists_specialise_of_contract contracted beta
    have exchanged
        (fits : specialised.argument.typeOf = .ok specialised.bound.ty) :
        SameType (place.replace contraction.result) (place.replace specialised.body) := by
      rw [isResult]
      exact SameType.isCongruence.context place.context
        (Redex.sameType_specialise inRedex isSpecialised fits)
    have keeps
        (fits : specialised.argument.typeOf = .ok specialised.bound.ty)
        (same : SameType specialised.body place.redex.toTerm) :
        (place.replace contraction.result).typeOf = .ok ty := by
      have inPlace := SameType.isCongruence.context place.context same
      exact (exchanged fits ty).mpr ((inPlace ty).mpr typed)
    constructor
    · intro other isOther fits
      rw [isSpecialised, Except.ok.injEq] at isOther
      subst isOther
      exact ⟨exchanged fits, keeps fits⟩
    · intro argumentType groundBound ofArgument groundArgument
      obtain ⟨isRedex, rfl, inner, ofBody, ofRedex⟩ :=
        Redex.specialise_eq_self_of_ground isSpecialised groundBound ofArgument groundArgument
      rw [isRedex] at keeps
      exact keeps ofArgument (.of_typeOf_eq ofBody ofRedex)

/-- The variable x has the type 'a, and there are constants for functions and for arguments. -/
def polymorphicOptions : ReadingOptions :=
  ⟨true, .singleLetter,
    ⟨[⟨'x', 'x', .variable, .var 'a'⟩,
      ⟨'f', 'f', .constant, .fn (.var 'a') (.var 'a')⟩,
      ⟨'P', 'P', .constant, .predicate .entity⟩,
      ⟨'a', 'a', .constant, .entity⟩,
      ⟨'b', 'b', .constant, .atom 's'⟩]⟩⟩

/-- The application of λx.f(x), where x has the type 'a, to a constant. -/
def polymorphicRedex (function argument : Identifier) : Redex :=
  ⟨⟨"x", .var 'a'⟩, .app (.const function) (.var ⟨"x", .var 'a'⟩), .const argument⟩

section PolymorphicRedex

variable {function argument : Identifier} {range : Ty}

/-- The application has the type that the body has before it is specialised. -/
theorem applyTo_polymorphicRedex
    (ofBody : (polymorphicRedex function argument).body.typeOf = .ok range)
    (ground : argument.ty.Ground) :
    (polymorphicRedex function argument).function.typeOf = .ok (.fn (.var 'a') range) ∧
      (Ty.fn (.var 'a') range).applyTo argument.ty (polymorphicRedex function argument).function =
        .ok ((Ty.Substitution.single 'a' argument.ty).apply range,
          .single 'a' argument.ty) := by
  have noLetters : argument.ty.letters = [] := ground
  have aligned : (Ty.var 'a').align argument.ty = .ok (.single 'a' argument.ty) :=
    Ty.align_var_eq_ok (by simp [noLetters])
  refine ⟨typeOf_lambda_eq_ok_iff.mpr ⟨range, ofBody, rfl⟩, Ty.applyTo_eq_ok_iff.mpr ?_⟩
  exact ⟨_, _, rfl, by rw [ground.apply_eq_self, aligned], rfl⟩

/-- In the variable and in the body 'a becomes the type of the argument. -/
theorem specialise_polymorphicRedex
    (ofBody : (polymorphicRedex function argument).body.typeOf = .ok range)
    (ground : argument.ty.Ground) :
    (polymorphicRedex function argument).specialise =
      .ok ⟨⟨"x", argument.ty⟩,
        .app (.const (function.instantiate (.single 'a' argument.ty)))
          (.var ⟨"x", argument.ty⟩),
        .const argument⟩ := by
  obtain ⟨ofFunction, applied⟩ := applyTo_polymorphicRedex ofBody ground
  have ofArgument : (polymorphicRedex function argument).argument.typeOf = .ok argument.ty := rfl
  have unchanged (substitution : Ty.Substitution) :
      (polymorphicRedex function argument).argument.instantiate substitution =
        .const argument := by
    rw [polymorphicRedex, instantiate, Identifier.instantiate, ground.apply_eq_self]
  have sameArgument (functionType : Ty) :
      (polymorphicRedex function argument).apartArgument functionType argument.ty =
        (polymorphicRedex function argument).argument :=
    unchanged _
  rw [Redex.specialise, ofFunction, ofArgument]
  simp only [Outcome.ok_bind, sameArgument, ofArgument, applied, unchanged]
  rfl

/-- The step puts in the argument and specialises the function. -/
theorem step?_polymorphicRedex
    (ofBody : (polymorphicRedex function argument).body.typeOf = .ok range)
    (ground : argument.ty.Ground) :
    (polymorphicRedex function argument).toTerm.step? =
      .ok (some ⟨.beta,
        .app (.const (function.instantiate (.single 'a' argument.ty))) (.const argument)⟩) := by
  have safe : ¬(polymorphicRedex function argument).Captures := by
    simp [Redex.Captures, polymorphicRedex, captures_app_iff]
  obtain ⟨contraction, contracted, beta, result⟩ :=
    Redex.exists_contract_of_specialise (specialise_polymorphicRedex ofBody ground) safe
  have found :
      (polymorphicRedex function argument).toTerm.leftmostRedex? =
        some ⟨[], polymorphicRedex function argument⟩ :=
    rfl
  simp [step?, found, contracted, beta, result, PlacedRedex.replace, substitute]

end PolymorphicRedex

/-- The application of λx.f(x) to an entity, where f has the type <'a,'a>. -/
def entityRedex : Redex :=
  polymorphicRedex ⟨"f", .fn (.var 'a') (.var 'a')⟩ ⟨"a", .entity⟩

/-- The result f(a) is an entity as the specialised body is, and not of the type 'b as the redex. -/
theorem typeOf_step_of_read_entityRedex :
    read polymorphicOptions (entityRedex.toTerm.text .logical) = .ok entityRedex.toTerm ∧
      entityRedex.toTerm.typeOf = .ok (.var 'b') ∧
      ∃ step,
        entityRedex.toTerm.step? = .ok (some step) ∧
          step.kind = .beta ∧
          step.result.typeOf = .ok .entity := by
  have readable : entityRedex.toTerm.Readable polymorphicOptions := by
    simp only [entityRedex, polymorphicRedex, Redex.toTerm, Redex.function, Readable,
      ReadingOptions.Admits]
    decide +kernel
  have result : read polymorphicOptions (entityRedex.toTerm.text .logical) =
      .ok entityRedex.toTerm :=
    readable.read_text (fun isPlain => by cases isPlain)
  have ofBody : entityRedex.body.typeOf = .ok (.var 'b') :=
    typeOf_app_eq_ok_iff.mpr
      ⟨_, _, _, _, rfl, rfl, Ty.align_var_eq_ok (by decide +kernel), by decide +kernel⟩
  have typed : entityRedex.toTerm.typeOf = .ok (.var 'b') :=
    typeOf_app_eq_ok_iff.mpr
      ⟨_, _, _, _, typeOf_lambda_eq_ok_iff.mpr ⟨_, ofBody, rfl⟩, rfl,
        Ty.align_var_eq_ok (by decide +kernel), by decide +kernel⟩
  have stepped := step?_polymorphicRedex ofBody (by rfl)
  have specialised := specialise_polymorphicRedex ofBody (by rfl)
  obtain ⟨_, inPlace⟩ := typeOf_step_of_read result typed stepped
  obtain ⟨sameType, _⟩ := (inPlace _ rfl rfl).1 _ specialised rfl
  have ofSpecialised :
      (app (.const ⟨"f", .fn .entity .entity⟩) (.var ⟨"x", .entity⟩)).typeOf = .ok .entity :=
    (typeOf_eq_ok_iff (by decide)).mpr (.app (.const _) (.var _))
  exact ⟨result, typed, _, stepped, rfl, (sameType .entity).mpr ofSpecialised⟩

/-- The application of λx.P(x) to a constant that is no entity, where x has the type 'a. -/
def worldRedex : Redex :=
  polymorphicRedex ⟨"P", .predicate .entity⟩ ⟨"b", .atom 's'⟩

/-- A step leads from (λx.P(x))(b), which is a truth value, to P(b), which has no type. -/
theorem exists_step_not_typed :
    read polymorphicOptions (worldRedex.toTerm.text .logical) = .ok worldRedex.toTerm ∧
      worldRedex.toTerm.typeOf = .ok .truth ∧
      ∃ step,
        worldRedex.toTerm.step? = .ok (some step) ∧
          ∀ ty, step.result.typeOf ≠ .ok ty := by
  have readable : worldRedex.toTerm.Readable polymorphicOptions := by
    simp only [worldRedex, polymorphicRedex, Redex.toTerm, Redex.function, Readable,
      ReadingOptions.Admits]
    decide +kernel
  have aligned : Ty.entity.align (.var 'a') = .ok (.single 'a' .entity) := by
    simp only [Ty.align, Ty.entity, Ty.unify, Ty.letters, List.not_mem_nil, ↓reduceIte,
      Ty.Equations.instantiate, List.map_nil]
    rfl
  have ofBody : worldRedex.body.typeOf = .ok .truth :=
    typeOf_app_eq_ok_iff.mpr ⟨_, _, _, _, rfl, rfl, aligned, rfl⟩
  have typed : worldRedex.toTerm.typeOf = .ok .truth :=
    typeOf_app_eq_ok_iff.mpr
      ⟨_, _, _, _, typeOf_lambda_eq_ok_iff.mpr ⟨_, ofBody, rfl⟩, rfl,
        Ty.align_var_eq_ok (by decide +kernel), by decide +kernel⟩
  refine ⟨readable.read_text (fun isPlain => by cases isPlain), typed, _, step?_polymorphicRedex ofBody (by rfl), ?_⟩
  intro ty ofResult
  have monomorphic :
      Monomorphic (.app (.const ⟨"P", .predicate .entity⟩) (.const ⟨"b", .atom 's'⟩)) := by
    decide
  have hasType := (typeOf_eq_ok_iff monomorphic).mp ofResult
  simp [Ty.predicate, Ty.entity] at hasType

end Term

end TypedLambda
