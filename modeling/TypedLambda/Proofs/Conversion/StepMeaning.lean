import TypedLambda.Proofs.Alpha.Equivalence
import TypedLambda.Proofs.Conversion.StepCases
import TypedLambda.Proofs.Ty.Ground

namespace TypedLambda

/-!
# What a conversion step does

A step either renames bound variables or puts the argument of the leftmost
redex in the place of its variable. The first leads to an alpha-equivalent
term and happens exactly if the naive substitution would capture a free
variable of the argument. The second agrees with the substitution that avoids
capture by renaming on its way. Types are disregarded in both, since a step
may specialise them.
-/

namespace Term

mutual

/--
Put a term in the place of the free occurrences of a name. A binder that
would capture a free variable of the term takes a new name first.
-/
def substituteAvoiding (name : String) (replacement : Term) : Term → Term
  | .var identifier => if identifier.name = name then replacement else .var identifier
  | .const identifier => .const identifier
  | .bind binder bound body =>
      if bound.name = name then
        .bind binder bound body
      else if replacement.hasFree bound.name && body.hasFree name then
        let fresh :=
          freshName (name :: (replacement.nameOccurrences ++ body.nameOccurrences)) bound.name
        .bind binder ⟨fresh, bound.ty⟩
          (substituteAvoiding name replacement (body.rename bound.name fresh))
      else
        .bind binder bound (substituteAvoiding name replacement body)
  | .app function argument =>
      .app (substituteAvoiding name replacement function)
        (substituteAvoiding name replacement argument)
  | .tuple items => .tuple (substituteAvoidingInAll name replacement items)
  | .neg operand => .neg (substituteAvoiding name replacement operand)
  | .connect connective left right =>
      .connect connective (substituteAvoiding name replacement left)
        (substituteAvoiding name replacement right)
  | .equal left right =>
      .equal (substituteAvoiding name replacement left)
        (substituteAvoiding name replacement right)
  | .relate relation left right =>
      .relate relation (substituteAvoiding name replacement left)
        (substituteAvoiding name replacement right)
termination_by term => (term.size, 0)
decreasing_by
  all_goals
    simp only [size, size_rename]
    grind

/-- Put a term in the place of the free occurrences of a name in every term of a list. -/
def substituteAvoidingInAll (name : String) (replacement : Term) : List Term → List Term
  | [] => []
  | term :: rest =>
      substituteAvoiding name replacement term ::
        substituteAvoidingInAll name replacement rest
termination_by terms => (sizeOfAll terms, 1)
decreasing_by
  all_goals
    simp only [sizeOfAll]
    grind [size_pos]

end

@[simp] theorem substituteAvoidingInAll_eq_map
    (name : String)
    (replacement : Term)
    (terms : List Term) :
    substituteAvoidingInAll name replacement terms =
      terms.map (substituteAvoiding name replacement) := by
  induction terms with
  | nil =>
      simp [substituteAvoidingInAll]
  | cons term rest inductionHypothesis =>
      simp [substituteAvoidingInAll, inductionHypothesis]

/-- Where nothing would be captured, naive substitution avoids capture. -/
theorem substituteAvoiding_eq_substitute
    {name : String}
    {replacement term : Term}
    (safe : ¬Captures name replacement term) :
    substituteAvoiding name replacement term =
      substitute name replacement term := by
  induction term with
  | var identifier =>
      rw [substituteAvoiding, substitute]
  | const identifier =>
      rw [substituteAvoiding, substitute]
  | bind binder bound body inductionHypothesis =>
      rw [substituteAvoiding, substitute]
      by_cases same : bound.name = name
      · rw [if_pos same, if_pos same]
      · rw [captures_bind_iff, not_and, not_or] at safe
        obtain ⟨inBody, capturing⟩ := safe same
        have notCapturing :
            ¬(replacement.hasFree bound.name && body.hasFree name) = true := by
          rw [Bool.and_eq_true]
          exact fun both => capturing both.symm
        rw [if_neg same, if_neg same, if_neg notCapturing,
          inductionHypothesis inBody]
  | tuple items inductionHypothesis =>
      rw [captures_tuple_iff] at safe
      rw [substituteAvoiding, substitute, substituteAvoidingInAll_eq_map,
        substituteAll_eq_map, Term.tuple.injEq]
      exact List.map_congr_left fun item member =>
        inductionHypothesis item member fun captured =>
          safe ⟨item, member, captured⟩
  | neg operand inductionHypothesis =>
      rw [captures_neg_iff] at safe
      rw [substituteAvoiding, substitute, inductionHypothesis safe]
  | app left right leftHypothesis rightHypothesis
  | connect _ left right leftHypothesis rightHypothesis
  | equal left right leftHypothesis rightHypothesis
  | relate _ left right leftHypothesis rightHypothesis =>
      simp only [captures_app_iff, captures_connect_iff, captures_equal_iff,
        captures_relate_iff, not_or] at safe
      rw [substituteAvoiding, substitute, leftHypothesis safe.1,
        rightHypothesis safe.2]

/-- Giving a binder a name that does not occur below it is a change of names only. -/
theorem alphaEq_rename_binder
    (context : Context)
    (binder : Binder)
    (bound : Identifier)
    (body : Term)
    {new : String}
    (fresh : new ∉ body.nameOccurrences) :
    AlphaEq (context.fill (.bind binder bound body)).eraseTypes
      (context.fill (.bind binder ⟨new, bound.ty⟩
        (substitute bound.name (.var ⟨new, bound.ty⟩) body))).eraseTypes := by
  have freshInErased : new ∉ body.eraseTypes.nameOccurrences := by
    rwa [eraseTypes, nameOccurrences_mapTypes]
  have renamed :=
    AlphaEq.rename binder ⟨bound.name, .prod []⟩ new
      body.eraseTypes freshInErased
  rw [← eraseTypes_substitute_var bound.name new bound.ty] at renamed
  rw [eraseTypes, eraseTypes, Context.mapTypes_fill, Context.mapTypes_fill]
  exact AlphaEq.isCongruence.context _ renamed

end Term

namespace Redex

/-- Naive substitution without types, the parts specialised or not. -/
theorem eraseTypes_substitute_instantiate
    (redex : Redex)
    (apart alignment : Ty.Substitution) :
    (Term.substitute redex.bound.name
        ((redex.argument.instantiate apart).instantiate alignment)
        (redex.body.instantiate alignment)).eraseTypes =
      (Term.substitute redex.bound.name redex.argument redex.body).eraseTypes := by
  rw [Term.eraseTypes_substitute, Term.eraseTypes_substitute]
  simp only [Term.eraseTypes_instantiate]

end Redex

namespace Term

/-- A redex is alpha-equivalent to itself with its body renamed, types disregarded. -/
theorem alphaEq_renamedBody (redex : Redex) :
    AlphaEq redex.toTerm.eraseTypes
      (Term.app (.bind .lambda redex.bound redex.renamedBody.1)
        redex.argument).eraseTypes := by
  have bodies :
      AlphaEq redex.body.eraseTypes redex.renamedBody.1.eraseTypes := by
    refine redex.renamedBody_invariant
      (fun term => AlphaEq redex.body.eraseTypes term.eraseTypes) ?_ (.refl _)
    intro context binder bound body new fresh before
    exact before.trans (alphaEq_rename_binder context binder bound body fresh)
  have functions :=
    bodies.frame (.bind .lambda ⟨redex.bound.name, .prod []⟩)
  exact functions.frame (.function redex.argument.eraseTypes)

/--
The meaning of a conversion step, whatever names and types occur. It works on
the leftmost redex. A renaming leads to an alpha-equivalent term; a
contraction leads to the term in which the argument has been put in without
capture, up to alpha equivalence; and a step is a renaming exactly if naive
substitution would capture a free variable of the argument.
-/
theorem step?_meaning
    {term : Term}
    {step : Step}
    (stepped : term.step? = .ok (some step)) :
    ∃ place : PlacedRedex,
      place.whole = term ∧
        place.IsLeftmost ∧
        (step.kind = .alpha →
          AlphaEq step.result.eraseTypes term.eraseTypes) ∧
        (step.kind = .beta →
          AlphaEq step.result.eraseTypes
            (place.replace
              (substituteAvoiding place.redex.bound.name
                place.redex.argument place.redex.body)).eraseTypes) ∧
        (step.kind = .alpha ↔
          Captures place.redex.bound.name
            place.redex.argument place.redex.body) := by
  obtain ⟨place, contraction, found, contracted, rfl⟩ := step?_cases stepped
  obtain ⟨whole, leftmost⟩ := isLeftmost_of_leftmostRedex? found
  refine ⟨place, whole, leftmost, ?_⟩
  obtain ⟨_, _, _, _, alignment, _, _, _, _, safe | capturing⟩ :=
    Redex.contract_cases contracted
  · obtain ⟨safe, kind, result⟩ := safe
    have notAlpha : contraction.kind ≠ .alpha := by
      simp [kind]
    refine ⟨fun isAlpha => (notAlpha isAlpha).elim, fun _ => ?_,
      fun isAlpha => (notAlpha isAlpha).elim, fun captured => (safe captured).elim⟩
    rw [result, Redex.apartArgument, PlacedRedex.replace, PlacedRedex.replace,
      eraseTypes, eraseTypes, Context.mapTypes_fill, Context.mapTypes_fill]
    refine AlphaEq.isCongruence.context _ ?_
    rw [← eraseTypes, Redex.eraseTypes_substitute_instantiate,
      ← substituteAvoiding_eq_substitute safe]
    exact .refl _
  · obtain ⟨captured, kind, result⟩ := capturing
    have notBeta : contraction.kind ≠ .beta := by
      simp [kind]
    refine ⟨fun _ => ?_, fun isBeta => (notBeta isBeta).elim,
      fun _ => captured, fun _ => kind⟩
    rw [← whole, result, PlacedRedex.whole, PlacedRedex.replace,
      PlacedRedex.replace, eraseTypes, eraseTypes, Context.mapTypes_fill,
      Context.mapTypes_fill]
    exact (AlphaEq.isCongruence.context _
      (alphaEq_renamedBody place.redex)).symm

/-- The application of λx.λy.R(x,y) to a variable that the inner binder would capture. -/
def capturingApplication : Term :=
  .app
    (.bind .lambda ⟨"x", .entity⟩
      (.bind .lambda ⟨"y", .entity⟩
        (.app (.const ⟨"R", .predicate (.prod [.entity, .entity])⟩)
          (.tuple [.var ⟨"x", .entity⟩, .var ⟨"y", .entity⟩]))))
    (.var ⟨"y", .entity⟩)

/-- The step from (λx.λy.R(x,y))(y) renames the inner binder. -/
theorem step?_meaning_capturingApplication :
    ∃ step place,
      capturingApplication.step? = .ok (some step) ∧
        step.kind = .alpha ∧
        PlacedRedex.whole place = capturingApplication ∧
        AlphaEq step.result.eraseTypes capturingApplication.eraseTypes ∧
        Captures place.redex.bound.name
          place.redex.argument place.redex.body := by
  let renamed : Step :=
    ⟨.alpha, .app
      (.bind .lambda ⟨"x", .entity⟩
        (.bind .lambda ⟨"y'", .entity⟩
          (.app (.const ⟨"R", .predicate (.prod [.entity, .entity])⟩)
            (.tuple [.var ⟨"x", .entity⟩, .var ⟨"y'", .entity⟩]))))
      (.var ⟨"y", .entity⟩)⟩
  have applied
      {domain range : Ty}
      {shown : Term}
      (groundDomain : domain.Ground)
      (groundRange : range.Ground) :
      (Ty.fn domain range).applyTo domain shown = .ok (range, .empty) := by
    rw [Ty.applyTo_ground_eq_ok_iff (by simp [groundDomain, groundRange])
      groundDomain]
    exact ⟨rfl, rfl⟩
  have fresh : freshName ["x", "y", "R", "x", "y", "y"] "y" = "y'" := by
    simp [freshName]
  have stepped : capturingApplication.step? = .ok (some renamed) := by
    simp [capturingApplication, step?, leftmostRedex?, redex?, Redex.contract,
      Redex.function, typeOf, typesOf, applied, Ty.predicate, Ty.entity,
      Redex.apartArgument, instantiate, Identifier.instantiate,
      Ty.Substitution.apply, Redex.renamedBody, avoidCapture,
      avoidCaptureInAll, hasFree, anyHasFree, Redex.usedNames,
      nameOccurrences, nameOccurrencesInAll, fresh, substitute, substituteAll,
      Contraction.kind, PlacedRedex.replace, Context.fill, renamed]
  obtain ⟨place, whole, _, alpha, _, kind⟩ := step?_meaning stepped
  exact ⟨renamed, place, stepped, rfl, whole, alpha rfl, kind.mp rfl⟩

end Term

end TypedLambda
