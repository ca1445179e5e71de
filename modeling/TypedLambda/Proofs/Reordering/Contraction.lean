import TypedLambda.Proofs.Conversion.Identifiers
import TypedLambda.Proofs.Nameless.Reordering
import TypedLambda.Proofs.Normalisation.Reducibility
import TypedLambda.Proofs.Reordering.Decision

namespace TypedLambda

/-!
# Contraction and reordering

What a contraction makes of a typed term is never the term itself reordered:
otherwise it could be made again and again, each time up to order, while typed
terms cannot be reduced for ever. Among ordinary names, where reordered terms
are told by their keys, the comparison of a term with what it reduces to fails.
-/

/-- An ordinary identifier with primes added to its name is ordinary. -/
theorem Identifier.IsOrdinary.primes
    {original primed : Identifier}
    (ordinary : original.IsOrdinary)
    (primes : original.Primes primed) :
    primed.IsOrdinary := by
  obtain ⟨count, spelled, sameType⟩ := primes
  have ofPrime : Text.isNameCharacter '\x27' = true := by
    simp [Text.isNameCharacter]
  constructor
  · simp [spelled, ordinary.1, ofPrime]
  · rw [sameType]
    exact ordinary.2

namespace Term

/-- A step leads from ordinary names to ordinary names. -/
theorem IsOrdinary.step
    {term : Term}
    (ordinary : term.IsOrdinary)
    (monomorphic : term.Monomorphic)
    {step : Step}
    (stepped : term.step? = .ok (some step)) :
    step.result.IsOrdinary := by
  intro identifier mentioned
  obtain ⟨original, inTerm, primes⟩ := monomorphic.primedFrom_step stepped identifier mentioned
  exact (ordinary original inTerm).primes primes

section Comparison

variable {before after : Term} (ordinary : before.IsOrdinary) (ordinaryAfter : after.IsOrdinary)

include ordinary ordinaryAfter

/-- Terms with ordinary names and the same key are reordered without names. -/
theorem nameless_reordered (same : before.reorderEquivalent after = true) :
    Nameless.Reordered before.nameless after.nameless := by
  have sameKey : before.canonical.orderKey = after.canonical.orderKey := of_decide_eq_true same
  have canonical :=
    (reordered_of_orderKey_eq ordinary.isPlain_canonical ordinaryAfter.isPlain_canonical
      sameKey).namelessIn []
  have beforeCanonical := ordinary.unmarked.nameless_canonical
  have afterCanonical := ordinaryAfter.unmarked.nameless_canonical
  exact beforeCanonical ▸ afterCanonical ▸ canonical

/-- A typed term is not what it reduces to, not even up to order. -/
theorem Typed.reorderEquivalent_eq_false
    {ty : Ty}
    (typed : Typed .empty before ty)
    (reduces : Nameless.Reduces before.nameless after.nameless) :
    before.reorderEquivalent after = false :=
  Bool.eq_false_iff.mpr fun same =>
    typed.stronglyNormalising.not_reordered reduces (nameless_reordered ordinary ordinaryAfter same)

end Comparison

end Term

end TypedLambda
