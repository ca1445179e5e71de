import Mathlib.Data.List.Perm.Basic
import TypedLambda.Proofs.Alpha.Equivalence

namespace TypedLambda

/-!
# Reordered terms

`Reordered` is the least congruence that contains alpha equivalence, by which
conjunctions and disjunctions may be regrouped, and by which the sides of a
conjunction, a disjunction, a biconditional or an equation may be exchanged.
So only the operands that a chain of one connective joins matter, and these in
any order.
-/

/-- The connective joins its operands in any grouping and any order. -/
def Connective.JoinsFreely (connective : Connective) : Prop :=
  connective = .conjunction ∨ connective = .disjunction

namespace Term

/-- Two terms are alike up to bound names, grouping and order. -/
inductive Reordered : Term → Term → Prop where
  /-- The names of bound variables do not matter. -/
  | alpha {left right : Term} : AlphaEq left right → Reordered left right
  /-- The sides may be exchanged. -/
  | symm {left right : Term} : Reordered left right → Reordered right left
  /-- Equivalences may be chained. -/
  | trans {left middle right : Term} :
      Reordered left middle → Reordered middle right → Reordered left right
  /-- A part may be exchanged for an equivalent one. -/
  | frame (frame : Frame) {left right : Term} :
      Reordered left right → Reordered (frame.fill left) (frame.fill right)
  /-- The operands of every connective but the conditional may be exchanged. -/
  | commute (connective : Connective) (left right : Term) :
      connective ≠ .conditional →
      Reordered (.connect connective left right) (.connect connective right left)
  /-- The sides of an equation may be exchanged. -/
  | commuteEqual (left right : Term) :
      Reordered (.equal left right) (.equal right left)
  /-- Conjunctions and disjunctions may be regrouped. -/
  | associate (connective : Connective) (left middle right : Term) :
      connective.JoinsFreely →
      Reordered
        (.connect connective (.connect connective left middle) right)
        (.connect connective left (.connect connective middle right))

namespace Reordered

theorem refl (term : Term) : Reordered term term :=
  .alpha (.refl term)

theorem isCongruence : IsCongruence Reordered where
  refl := .refl
  symm := .symm
  trans := .trans
  frame := .frame

end Reordered

/-- A list of operands joined by a connective, grouped to the right. -/
def joined (connective : Connective) : List Term → Term
  | [] => .tuple []
  | [operand] => operand
  | operand :: second :: rest =>
      .connect connective operand (joined connective (second :: rest))

section Joined

variable {connective : Connective}

theorem joined_cons
    (operand : Term)
    {rest : List Term}
    (nonempty : rest ≠ []) :
    joined connective (operand :: rest) =
      .connect connective operand (joined connective rest) := by
  cases rest with
  | nil =>
      exact absurd rfl nonempty
  | cons _ _ =>
      rfl

/-- The operands of two chains make one chain. -/
theorem reordered_joined_append
    (free : connective.JoinsFreely)
    {lefts rights : List Term}
    (leftsNonempty : lefts ≠ [])
    (rightsNonempty : rights ≠ []) :
    Reordered
      (.connect connective (joined connective lefts) (joined connective rights))
      (joined connective (lefts ++ rights)) := by
  induction lefts with
  | nil =>
      exact absurd rfl leftsNonempty
  | cons operand rest inductionHypothesis =>
      cases rest with
      | nil =>
          rw [List.singleton_append, joined_cons operand rightsNonempty]
          exact .refl _
      | cons second others =>
          have tail := inductionHypothesis (List.cons_ne_nil _ _)
          have regrouped :=
            Reordered.associate connective operand
              (joined connective (second :: others))
              (joined connective rights) free
          rw [List.cons_append, joined_cons operand (List.cons_ne_nil _ _),
            joined_cons operand (by simp)]
          exact regrouped.trans (tail.frame (.connectRight connective operand))

/-- The order of operands in a chain does not matter. -/
theorem reordered_joined_of_perm
    (free : connective.JoinsFreely)
    {operands others : List Term}
    (perm : operands.Perm others) :
    Reordered (joined connective operands) (joined connective others) := by
  induction perm with
  | nil =>
      exact .refl _
  | @cons operand rest otherRest restPerm inductionHypothesis =>
      cases rest with
      | nil =>
          rw [List.nil_perm.mp restPerm]
          exact .refl _
      | cons second others =>
          have nonempty : otherRest ≠ [] := by
            intro isNil
            subst isNil
            exact List.cons_ne_nil _ _ (List.perm_nil.mp restPerm)
          rw [joined_cons operand (List.cons_ne_nil _ _),
            joined_cons operand nonempty]
          exact inductionHypothesis.frame (.connectRight connective operand)
  | swap first second rest =>
      have commutes : connective ≠ .conditional := by
        rcases free with rfl | rfl <;> simp
      cases rest with
      | nil =>
          exact .commute connective second first commutes
      | cons third others =>
          simp only [joined_cons _ (List.cons_ne_nil _ _)]
          have together :=
            Reordered.associate connective second first
              (joined connective (third :: others)) free
          have apart :=
            Reordered.associate connective first second
              (joined connective (third :: others)) free
          have exchanged :=
            (Reordered.commute connective second first commutes).frame
              (.connectLeft connective (joined connective (third :: others)))
          exact together.symm.trans (exchanged.trans apart)
  | trans _ _ firstHypothesis secondHypothesis =>
      exact firstHypothesis.trans secondHypothesis

/-- Operands in a chain may be exchanged for equivalent ones. -/
theorem reordered_joined_of_forall₂
    {operands others : List Term}
    (related : List.Forall₂ Reordered operands others) :
    Reordered (joined connective operands) (joined connective others) := by
  induction related with
  | nil =>
      exact .refl _
  | @cons operand other rest otherRest head tail inductionHypothesis =>
      cases tail with
      | nil =>
          exact head
      | cons _ _ =>
          simp only [joined_cons _ (List.cons_ne_nil _ _)]
          exact Reordered.isCongruence.connect connective head inductionHypothesis

end Joined

/-- The operands that a connective joins in a term, from left to right. -/
def operands (connective : Connective) : Term → List Term
  | .connect inner left right =>
      if inner = connective then
        left.operands connective ++ right.operands connective
      else
        [.connect inner left right]
  | term => [term]

/-- Every term has at least one operand. -/
theorem operands_ne_nil
    (connective : Connective)
    (term : Term) :
    term.operands connective ≠ [] := by
  induction term with
  | connect inner left right leftHypothesis _ =>
      rw [operands]
      split
      · simp [leftHypothesis]
      · simp
  | _ =>
      simp [operands]

/-- A term is what its operands give when they are joined again. -/
theorem reordered_joined_operands
    {connective : Connective}
    (free : connective.JoinsFreely)
    (term : Term) :
    Reordered term (joined connective (term.operands connective)) := by
  induction term with
  | connect inner left right leftHypothesis rightHypothesis =>
      rw [operands]
      split
      · next same =>
          subst same
          exact (Reordered.isCongruence.connect inner leftHypothesis
            rightHypothesis).trans
              (reordered_joined_append free (operands_ne_nil _ left)
                (operands_ne_nil _ right))
      · exact .refl _
  | _ =>
      exact .refl _

end Term

end TypedLambda
