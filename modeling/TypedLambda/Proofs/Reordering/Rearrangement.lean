import TypedLambda.Proofs.Conversion.StepCases
import TypedLambda.Proofs.Reordering.Relation
import TypedLambda.Proofs.Ty.Solvability
import TypedLambda.Proofs.Typing.SameType

namespace TypedLambda

/-!
# Rearranged terms

A term is rearranged by regrouping conjunctions and disjunctions and by
exchanging operands and sides, with all names left as they are. This changes
neither what is free in a term nor what a substitution would capture, and it
changes no types. A redex can only be rearranged inside its body and inside
its argument, so it goes on needing a renaming, or not needing one.
-/

namespace Term

/-- Two terms are alike up to grouping and order. -/
inductive Rearranged : Term → Term → Prop where
  /-- Every term is like itself. -/
  | refl (term : Term) : Rearranged term term
  /-- The sides may be exchanged. -/
  | symm {left right : Term} : Rearranged left right → Rearranged right left
  /-- Equivalences may be chained. -/
  | trans {left middle right : Term} :
      Rearranged left middle → Rearranged middle right → Rearranged left right
  /-- A part may be exchanged for an equivalent one. -/
  | frame (frame : Frame) {left right : Term} :
      Rearranged left right → Rearranged (frame.fill left) (frame.fill right)
  /-- The operands of every connective but the conditional may be exchanged. -/
  | commute (connective : Connective) (left right : Term) :
      connective ≠ .conditional →
      Rearranged (.connect connective left right) (.connect connective right left)
  /-- The sides of an equation may be exchanged. -/
  | commuteEqual (left right : Term) :
      Rearranged (.equal left right) (.equal right left)
  /-- Conjunctions and disjunctions may be regrouped. -/
  | associate (connective : Connective) (left middle right : Term) :
      connective.JoinsFreely →
      Rearranged
        (.connect connective (.connect connective left middle) right)
        (.connect connective left (.connect connective middle right))

/-- How the roots of rearranged terms correspond, where they apply or bind something. -/
inductive RootsMatch : Term → Term → Prop where
  | app
      {function otherFunction argument otherArgument : Term}
      (functions : Rearranged function otherFunction)
      (arguments : Rearranged argument otherArgument) :
      RootsMatch (.app function argument) (.app otherFunction otherArgument)
  | bind
      (binder : Binder)
      (bound : Identifier)
      {body otherBody : Term}
      (bodies : Rearranged body otherBody) :
      RootsMatch (.bind binder bound body) (.bind binder bound otherBody)
  | other
      {left right : Term}
      (left_ne_app : left.form ≠ .app)
      (right_ne_app : right.form ≠ .app)
      (left_ne_bind : ∀ binder, left.form ≠ .bind binder)
      (right_ne_bind : ∀ binder, right.form ≠ .bind binder) :
      RootsMatch left right

namespace RootsMatch

theorem refl (term : Term) : RootsMatch term term := by
  cases term with
  | app function argument =>
      exact .app (.refl function) (.refl argument)
  | bind binder bound body =>
      exact .bind binder bound (.refl body)
  | _ =>
      apply other <;> simp [form]

theorem symm
    {left right : Term}
    (roots : RootsMatch left right) :
    RootsMatch right left := by
  cases roots with
  | app functions arguments =>
      exact .app functions.symm arguments.symm
  | bind binder bound bodies =>
      exact .bind binder bound bodies.symm
  | other left_ne_app right_ne_app left_ne_bind right_ne_bind =>
      exact .other right_ne_app left_ne_app right_ne_bind left_ne_bind

theorem trans
    {left middle right : Term}
    (first : RootsMatch left middle)
    (second : RootsMatch middle right) :
    RootsMatch left right := by
  cases first with
  | app functions arguments =>
      cases second with
      | app otherFunctions otherArguments =>
          exact .app (functions.trans otherFunctions) (arguments.trans otherArguments)
      | other middle_ne_app =>
          exact (middle_ne_app rfl).elim
  | bind binder bound bodies =>
      cases second with
      | bind _ _ otherBodies =>
          exact .bind binder bound (bodies.trans otherBodies)
      | other _ _ middle_ne_bind =>
          exact (middle_ne_bind binder rfl).elim
  | other left_ne_app middle_ne_app left_ne_bind middle_ne_bind =>
      cases second with
      | app =>
          exact (middle_ne_app rfl).elim
      | bind binder =>
          exact (middle_ne_bind binder rfl).elim
      | other _ right_ne_app _ right_ne_bind =>
          exact .other left_ne_app right_ne_app left_ne_bind right_ne_bind

theorem fill
    (frame : Frame)
    {left right : Term}
    (rearranged : Rearranged left right) :
    RootsMatch (frame.fill left) (frame.fill right) := by
  cases frame with
  | bind binder bound =>
      exact .bind binder bound rearranged
  | function operand =>
      exact .app rearranged (.refl operand)
  | argument operator =>
      exact .app (.refl operator) rearranged
  | _ =>
      apply other <;> simp [Frame.fill, form]

end RootsMatch

namespace Rearranged

theorem isCongruence : IsCongruence Rearranged where
  refl := .refl
  symm := .symm
  trans := .trans
  frame := .frame

variable {left right : Term}

/-- Every congruence that allows regrouping and exchanging contains what is rearranged. -/
theorem least
    {Related : Term → Term → Prop}
    (congruence : IsCongruence Related)
    (commute :
      ∀ (connective : Connective) (left right : Term),
        connective ≠ .conditional →
          Related (.connect connective left right) (.connect connective right left))
    (commuteEqual :
      ∀ left right : Term, Related (.equal left right) (.equal right left))
    (associate :
      ∀ (connective : Connective) (left middle right : Term),
        connective.JoinsFreely →
          Related
            (.connect connective (.connect connective left middle) right)
            (.connect connective left (.connect connective middle right)))
    (rearranged : Rearranged left right) :
    Related left right := by
  induction rearranged with
  | refl term =>
      exact congruence.refl term
  | symm _ inductionHypothesis =>
      exact congruence.symm inductionHypothesis
  | trans _ _ firstHypothesis secondHypothesis =>
      exact congruence.trans firstHypothesis secondHypothesis
  | frame frame _ inductionHypothesis =>
      exact congruence.frame frame inductionHypothesis
  | commute connective left right exchangeable =>
      exact commute connective left right exchangeable
  | commuteEqual left right =>
      exact commuteEqual left right
  | associate connective left middle right free =>
      exact associate connective left middle right free

/-- What is rearranged is reordered. -/
theorem reordered (rearranged : Rearranged left right) : Reordered left right :=
  rearranged.least Reordered.isCongruence .commute .commuteEqual .associate

/-- Applications and binders are rearranged in their parts only. -/
theorem rootsMatch (rearranged : Rearranged left right) : RootsMatch left right := by
  induction rearranged with
  | refl term =>
      exact .refl term
  | symm _ inductionHypothesis =>
      exact inductionHypothesis.symm
  | trans _ _ firstHypothesis secondHypothesis =>
      exact firstHypothesis.trans secondHypothesis
  | frame frame rearranged _ =>
      exact .fill frame rearranged
  | _ =>
      apply RootsMatch.other <;> simp [form]

/-- The same names are free in a rearranged term. -/
theorem hasFree_eq
    (rearranged : Rearranged left right)
    (name : String) :
    left.hasFree name = right.hasFree name := by
  induction rearranged with
  | refl term =>
      rfl
  | symm _ inductionHypothesis =>
      exact inductionHypothesis.symm
  | trans _ _ firstHypothesis secondHypothesis =>
      exact firstHypothesis.trans secondHypothesis
  | frame frame _ inductionHypothesis =>
      cases frame <;> simp [Frame.fill, hasFree, inductionHypothesis]
  | commute | commuteEqual =>
      exact Bool.or_comm _ _
  | associate =>
      exact Bool.or_assoc _ _ _

/-- An argument is captured in a rearranged term as in the term before. -/
theorem captures_iff
    (rearranged : Rearranged left right)
    {name : String}
    {argument : Term} :
    Captures name argument left ↔ Captures name argument right := by
  induction rearranged with
  | refl term =>
      exact Iff.rfl
  | symm _ inductionHypothesis =>
      exact inductionHypothesis.symm
  | trans _ _ firstHypothesis secondHypothesis =>
      exact firstHypothesis.trans secondHypothesis
  | frame frame rearranged inductionHypothesis =>
      cases frame <;>
        simp only [Frame.fill, captures_bind_iff, captures_app_iff, captures_tuple_iff,
          captures_neg_iff, captures_connect_iff, captures_equal_iff, captures_relate_iff,
          List.mem_append, List.mem_cons, or_and_right, exists_or, exists_eq_left,
          inductionHypothesis, rearranged.hasFree_eq name]
  | commute =>
      simp only [captures_connect_iff, or_comm]
  | commuteEqual =>
      simp only [captures_equal_iff, or_comm]
  | associate =>
      simp only [captures_connect_iff, or_assoc]

/-- Capture depends on what is free in the argument only. -/
theorem captures_argument_iff
    (rearranged : Rearranged left right)
    {name : String}
    {term : Term} :
    Captures name left term ↔ Captures name right term := by
  simp only [Captures, rearranged.hasFree_eq]

/-- A change of types leaves terms rearranged. -/
theorem mapTypes
    (rearranged : Rearranged left right)
    (change : Ty → Ty) :
    Rearranged (left.mapTypes change) (right.mapTypes change) := by
  induction rearranged with
  | refl term =>
      exact .refl _
  | symm _ inductionHypothesis =>
      exact inductionHypothesis.symm
  | trans _ _ firstHypothesis secondHypothesis =>
      exact firstHypothesis.trans secondHypothesis
  | frame frame _ inductionHypothesis =>
      rw [Frame.mapTypes_fill, Frame.mapTypes_fill]
      exact inductionHypothesis.frame _
  | commute connective _ _ exchangeable =>
      exact .commute connective _ _ exchangeable
  | commuteEqual =>
      exact .commuteEqual _ _
  | associate connective _ _ _ free =>
      exact .associate connective _ _ _ free

/-- Replacing type variables leaves terms rearranged. -/
theorem instantiate
    (rearranged : Rearranged left right)
    (substitution : Ty.Substitution) :
    Rearranged (left.instantiate substitution) (right.instantiate substitution) := by
  rw [instantiate_eq_mapTypes, instantiate_eq_mapTypes]
  exact rearranged.mapTypes substitution.apply

/-- A rearranged term has the type of the term before. -/
theorem sameType (rearranged : Rearranged left right) : SameType left right := by
  refine rearranged.least SameType.isCongruence ?commute ?commuteEqual ?associate
  case commute =>
    intro connective left right _ ty
    rw [typeOf_connect_eq_ok_iff, typeOf_connect_eq_ok_iff, and_left_comm]
  case commuteEqual =>
    intro left right ty
    have exchanged {side other : Term} (typed : (equal side other).typeOf = .ok ty) :
        (equal other side).typeOf = .ok ty := by
      rw [typeOf_equal_eq_ok_iff] at typed ⊢
      obtain ⟨⟨sideType, otherType, ofSide, ofOther, aligned⟩, isTruth⟩ := typed
      exact ⟨⟨otherType, sideType, ofOther, ofSide, Ty.exists_align_eq_ok_comm.mp aligned⟩,
        isTruth⟩
    exact ⟨exchanged, exchanged⟩
  case associate =>
    intro connective left middle right _ ty
    have demanded : Ty.truth.demandTruth = .ok () :=
      (Ty.demandTruth_ground_eq_ok_iff Ty.ground_truth).mpr rfl
    simp only [typeOf_connect_eq_ok_iff]
    grind

end Rearranged

/-- Every congruence that contains alpha equivalence and rearranging contains reordering. -/
theorem Reordered.least
    {Related : Term → Term → Prop}
    (congruence : IsCongruence Related)
    (alpha : ∀ {left right : Term}, AlphaEq left right → Related left right)
    (rearranged : ∀ {left right : Term}, Rearranged left right → Related left right)
    {left right : Term}
    (reordered : Reordered left right) :
    Related left right := by
  induction reordered with
  | alpha equivalent =>
      exact alpha equivalent
  | symm _ inductionHypothesis =>
      exact congruence.symm inductionHypothesis
  | trans _ _ firstHypothesis secondHypothesis =>
      exact congruence.trans firstHypothesis secondHypothesis
  | frame frame _ inductionHypothesis =>
      exact congruence.frame frame inductionHypothesis
  | commute connective left right exchangeable =>
      exact rearranged (.commute connective left right exchangeable)
  | commuteEqual left right =>
      exact rearranged (.commuteEqual left right)
  | associate connective left middle right free =>
      exact rearranged (.associate connective left middle right free)

end Term

namespace Redex

variable {redex other : Redex}

/-- A redex is rearranged in its body and in its argument. -/
theorem parts_of_rearranged
    (rearranged : Term.Rearranged redex.toTerm other.toTerm) :
    redex.bound = other.bound ∧
      Term.Rearranged redex.body other.body ∧
      Term.Rearranged redex.argument other.argument := by
  obtain ⟨bound, body, argument⟩ := redex
  obtain ⟨otherBound, otherBody, otherArgument⟩ := other
  cases rearranged.rootsMatch with
  | app functions arguments =>
      cases functions.rootsMatch with
      | bind _ _ bodies =>
          exact ⟨rfl, bodies, arguments⟩
      | other _ _ left_ne_bind =>
          exact (left_ne_bind .lambda rfl).elim
  | other left_ne_app =>
      exact (left_ne_app rfl).elim

/-- A redex is contracted in the way in which it would be after it has been rearranged. -/
theorem exists_contract_of_rearranged
    {contraction : Contraction}
    (rearranged : Term.Rearranged redex.toTerm other.toTerm)
    (contracted : redex.contract = .ok contraction) :
    ∃ otherContraction,
      other.contract = .ok otherContraction ∧ otherContraction.kind = contraction.kind := by
  obtain ⟨sameBound, bodies, arguments⟩ := parts_of_rearranged rearranged
  obtain ⟨functionType, argumentType, apartType, range, alignment, ofFunction, ofArgument,
    ofApart, applied, how⟩ := contract_cases contracted
  have functions : Term.Rearranged redex.function other.function := by
    rw [function, function, ← sameBound]
    exact bodies.frame (.bind .lambda redex.bound)
  have apart := arguments.instantiate (argumentType.renameApart functionType)
  obtain ⟨otherContraction, contractedToo⟩ :=
    exists_contract_eq_ok ((functions.sameType functionType).mp ofFunction)
      ((arguments.sameType argumentType).mp ofArgument)
      ((apart.sameType apartType).mp ofApart)
      (Ty.applyTo_eq_ok_iff.mpr (Ty.applyTo_eq_ok_iff.mp applied))
  have capture_iff : redex.Captures ↔ other.Captures := by
    rw [Captures, Captures, ← sameBound, bodies.captures_iff, arguments.captures_argument_iff]
  refine ⟨otherContraction, contractedToo, ?_⟩
  obtain ⟨_, _, _, _, _, _, _, _, _, howToo⟩ := contract_cases contractedToo
  rcases how with ⟨safe, kind, _⟩ | ⟨captures, kind, _⟩
  · rcases howToo with ⟨_, kindToo, _⟩ | ⟨capturesToo, _⟩
    · rw [kind, kindToo]
    · exact (safe (capture_iff.mpr capturesToo)).elim
  · rcases howToo with ⟨safeToo, _⟩ | ⟨_, kindToo, _⟩
    · exact (safeToo (capture_iff.mp captures)).elim
    · rw [kind, kindToo]

end Redex

end TypedLambda
