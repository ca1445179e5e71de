import Mathlib.Data.List.Forall2
import TypedLambda.Conversion.Redex

namespace TypedLambda.Term

/-!
# Congruences

An equivalence of terms is a congruence if parts may be exchanged for
equivalent ones. To exchange one part at a time is enough; that several parts
and whole lists of items may be exchanged follows.
-/

/-- Lists with the same images are related element by element. -/
theorem forall₂_of_map_eq
    {f : α → β}
    {Related : α → α → Prop}
    {lefts rights : List α}
    (same : lefts.map f = rights.map f)
    (related :
      ∀ left ∈ lefts, ∀ right ∈ rights, f left = f right → Related left right) :
    List.Forall₂ Related lefts rights := by
  induction lefts generalizing rights with
  | nil =>
      cases rights with
      | nil =>
          exact .nil
      | cons _ _ =>
          simp at same
  | cons left lefts inductionHypothesis =>
      cases rights with
      | nil =>
          simp at same
      | cons right rights =>
          simp only [List.map_cons, List.cons.injEq] at same
          apply List.Forall₂.cons
          · exact related left (by simp) right (by simp) same.1
          · apply inductionHypothesis same.2
            intro first inLefts second inRights
            exact related first (List.mem_cons_of_mem _ inLefts) second
              (List.mem_cons_of_mem _ inRights)

/-- An equivalence of terms that allows the exchange of a part. -/
structure IsCongruence (Related : Term → Term → Prop) : Prop where
  refl : ∀ term, Related term term
  symm : ∀ {left right}, Related left right → Related right left
  trans :
    ∀ {left middle right},
      Related left middle → Related middle right → Related left right
  frame :
    ∀ (frame : Frame) {left right},
      Related left right → Related (frame.fill left) (frame.fill right)

namespace IsCongruence

variable {Related : Term → Term → Prop} (congruence : IsCongruence Related)

include congruence

/-- Parts may be exchanged at any depth. -/
theorem context
    (context : Context)
    {left right : Term}
    (related : Related left right) :
    Related (context.fill left) (context.fill right) := by
  induction context with
  | nil =>
      exact related
  | cons frame rest inductionHypothesis =>
      exact congruence.frame frame inductionHypothesis

/-- Both parts of an application may be exchanged. -/
theorem app
    {function otherFunction argument otherArgument : Term}
    (functions : Related function otherFunction)
    (arguments : Related argument otherArgument) :
    Related (.app function argument) (.app otherFunction otherArgument) :=
  congruence.trans (congruence.frame (.function argument) functions)
    (congruence.frame (.argument otherFunction) arguments)

/-- Both operands of a connective may be exchanged. -/
theorem connect
    (connective : Connective)
    {left otherLeft right otherRight : Term}
    (lefts : Related left otherLeft)
    (rights : Related right otherRight) :
    Related (.connect connective left right)
      (.connect connective otherLeft otherRight) :=
  congruence.trans (congruence.frame (.connectLeft connective right) lefts)
    (congruence.frame (.connectRight connective otherLeft) rights)

/-- Both sides of an equation may be exchanged. -/
theorem equal
    {left otherLeft right otherRight : Term}
    (lefts : Related left otherLeft)
    (rights : Related right otherRight) :
    Related (.equal left right) (.equal otherLeft otherRight) :=
  congruence.trans (congruence.frame (.equalLeft right) lefts)
    (congruence.frame (.equalRight otherLeft) rights)

/-- Both sides of a set relation may be exchanged. -/
theorem relate
    (relation : SetRelation)
    {left otherLeft right otherRight : Term}
    (lefts : Related left otherLeft)
    (rights : Related right otherRight) :
    Related (.relate relation left right)
      (.relate relation otherLeft otherRight) :=
  congruence.trans (congruence.frame (.relateLeft relation right) lefts)
    (congruence.frame (.relateRight relation otherLeft) rights)

/-- All items of a tuple behind some given ones may be exchanged. -/
theorem tuple
    (before : List Term)
    {items others : List Term}
    (related : List.Forall₂ Related items others) :
    Related (.tuple (before ++ items)) (.tuple (before ++ others)) := by
  induction related generalizing before with
  | nil =>
      exact congruence.refl _
  | @cons item other rest otherRest head tail inductionHypothesis =>
      have first :
          Related (.tuple (before ++ item :: rest))
            (.tuple (before ++ other :: rest)) :=
        congruence.frame (.item before rest) head
      have others :
          Related (.tuple (before ++ [other] ++ rest))
            (.tuple (before ++ [other] ++ otherRest)) :=
        inductionHypothesis (before ++ [other])
      simp only [List.append_assoc, List.singleton_append] at others
      exact congruence.trans first others

end IsCongruence

end TypedLambda.Term
