import TypedLambda.Proofs.Reordering.Decision
import TypedLambda.Proofs.Reordering.Rearrangement
import TypedLambda.Proofs.Term.FreeOccurrences

namespace TypedLambda.Term

/-!
# What reordering keeps

A reordered term has the same free occurrences in some order, and it has the
type of the term before, with type variables or without. Exchanging the sides of
an equation exchanges what is aligned, which succeeds either way. Regrouping
makes subterms that were not there before, but they are truth values like the
whole.
-/

/-- A part is exchanged for one with the same free occurrences, and so the whole has the same. -/
theorem freeOccurrences_fill_perm
    (frame : Frame)
    {left right : Term}
    (scope : List String)
    (perm : ∀ inner, (left.freeOccurrences inner).Perm (right.freeOccurrences inner)) :
    ((frame.fill left).freeOccurrences scope).Perm
      ((frame.fill right).freeOccurrences scope) := by
  cases frame with
  | bind binder bound =>
      exact perm (bound.name :: scope)
  | neg =>
      exact perm scope
  | item before after =>
      simp only [Frame.fill, freeOccurrences, freeOccurrencesInAll_eq_flatMap,
        List.flatMap_append, List.flatMap_cons]
      exact ((perm scope).append_right _).append_left _
  | function | connectLeft | equalLeft | relateLeft =>
      exact (perm scope).append_right _
  | argument | connectRight | equalRight | relateRight =>
      exact (perm scope).append_left _

namespace Reordered

variable {left right : Term}

/-- A reordered term has the same free occurrences up to their order. -/
theorem freeOccurrences_perm
    (reordered : Reordered left right)
    (scope : List String) :
    (left.freeOccurrences scope).Perm (right.freeOccurrences scope) := by
  induction reordered generalizing scope with
  | alpha equivalent =>
      rw [equivalent.freeOccurrences_eq scope]
  | symm _ inductionHypothesis =>
      exact (inductionHypothesis scope).symm
  | trans _ _ firstHypothesis secondHypothesis =>
      exact (firstHypothesis scope).trans (secondHypothesis scope)
  | frame frame _ inductionHypothesis =>
      exact freeOccurrences_fill_perm frame scope inductionHypothesis
  | commute | commuteEqual =>
      exact List.perm_append_comm
  | associate connective left middle right =>
      simp only [freeOccurrences, List.append_assoc]
      exact .refl _

/-- A reordered term has the same free variables. -/
theorem freeVariables_eq (reordered : Reordered left right) :
    left.freeVariables = right.freeVariables := by
  rw [freeVariables_eq_iff]
  intro identifier
  rw [mem_freeVariables_iff, mem_freeVariables_iff]
  exact (reordered.freeOccurrences_perm []).mem_iff

/-- A reordered term has the type of the term before. -/
theorem sameType (reordered : Reordered left right) : SameType left right :=
  reordered.least SameType.isCongruence AlphaEq.sameType Rearranged.sameType

end Reordered

/--
Terms with ordinary names and types that are found to be alike up to order have
the same free variables, and they have the same type, if they have any.
-/
theorem freeVariables_eq_and_sameType
    {left right : Term}
    (leftOrdinary : left.IsOrdinary)
    (rightOrdinary : right.IsOrdinary)
    (accepted : left.reorderEquivalent right = true) :
    left.freeVariables = right.freeVariables ∧ SameType left right := by
  have reordered := (reorderEquivalent_iff_reordered leftOrdinary rightOrdinary).mp accepted
  exact ⟨reordered.freeVariables_eq, reordered.sameType⟩

/-- The term λx.(P(x) ∧ z = x) ∧ Q(y), where the free variable z is of any type. -/
def groupedConjuncts : Term :=
  .bind .lambda ⟨"x", .entity⟩ (.connect .conjunction
    (.connect .conjunction
      (.app (.const ⟨"P", .predicate .entity⟩) (.var ⟨"x", .entity⟩))
      (.equal (.var ⟨"z", .var 'a'⟩) (.var ⟨"x", .entity⟩)))
    (.app (.const ⟨"Q", .predicate .entity⟩) (.var ⟨"y", .entity⟩)))

/-- The same regrouped and exchanged: λw.(w = z) ∧ (Q(y) ∧ P(w)). -/
def regroupedConjuncts : Term :=
  .bind .lambda ⟨"w", .entity⟩ (.connect .conjunction
    (.equal (.var ⟨"w", .entity⟩) (.var ⟨"z", .var 'a'⟩))
    (.connect .conjunction
      (.app (.const ⟨"Q", .predicate .entity⟩) (.var ⟨"y", .entity⟩))
      (.app (.const ⟨"P", .predicate .entity⟩) (.var ⟨"w", .entity⟩))))

theorem freeVariables_eq_and_sameType_groupedConjuncts :
    groupedConjuncts.IsOrdinary ∧
      regroupedConjuncts.IsOrdinary ∧
      groupedConjuncts.reorderEquivalent regroupedConjuncts = true ∧
      groupedConjuncts.freeVariables = regroupedConjuncts.freeVariables ∧
      SameType groupedConjuncts regroupedConjuncts := by
  have ordinary : groupedConjuncts.IsOrdinary := by
    decide +kernel
  have regroupedOrdinary : regroupedConjuncts.IsOrdinary := by
    decide +kernel
  have accepted : groupedConjuncts.reorderEquivalent regroupedConjuncts = true := by
    decide +kernel
  exact ⟨ordinary, regroupedOrdinary, accepted,
    freeVariables_eq_and_sameType ordinary regroupedOrdinary accepted⟩

end TypedLambda.Term
