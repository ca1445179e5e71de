import TypedLambda.Proofs.Alpha.Canonical

namespace TypedLambda.Term

/-!
# Deciding alpha equivalence

Canonical forms are compared to find out whether two terms are the same
nameless term. The comparison is right in both directions as long as no free
variable could be taken for a bound one that has got its canonical name. All
canonical names begin with the same sign, so it is enough that free variables
do not begin with it; how bound variables are called makes no difference.
-/

/-- No free variable has a name that begins like the canonical ones. -/
def Unmarked (term : Term) : Prop :=
  ∀ name, term.hasFree name = true → name.toList.head? ≠ some '#'

/-- A term is unmarked if no name in it begins like the canonical ones. -/
theorem unmarked_of_identifiers
    {term : Term}
    (ordinary :
      ∀ identifier ∈ term.identifiers, identifier.name.toList.head? ≠ some '#') :
    term.Unmarked := by
  intro name free
  obtain ⟨identifier, mentioned, rfl⟩ := exists_identifier_of_hasFree free
  exact ordinary identifier mentioned

/-- Canonical names begin with their sign. -/
theorem head?_canonicalName (depth : Nat) :
    (canonicalName depth).toList.head? = some '#' := by
  simp [canonicalName]

/-- The free variables of an unmarked term are called otherwise than canonical ones. -/
theorem Unmarked.ne_canonicalName
    {term : Term}
    (unmarked : term.Unmarked)
    {name : String}
    (free : term.hasFree name = true)
    (depth : Nat) :
    name ≠ canonicalName depth := by
  intro isCanonical
  have marked := head?_canonicalName depth
  rw [← isCanonical] at marked
  exact unmarked name free marked

/-- Canonical names leave an unmarked term the same nameless term. -/
theorem Unmarked.nameless_canonical
    {term : Term}
    (unmarked : term.Unmarked) :
    term.canonical.nameless = term.nameless :=
  namelessIn_canonicalIn [] fun _ free _ => unmarked.ne_canonicalName free

/-- A canonical form is made from the nameless term. -/
theorem canonical_eq_named (term : Term) :
    term.canonical = term.nameless.named 0 :=
  canonicalIn_eq_named [] term

/-- Unmarked terms have the same canonical form exactly if they are the same nameless term. -/
theorem Unmarked.alphaEquivalent_iff
    {left right : Term}
    (leftUnmarked : left.Unmarked)
    (rightUnmarked : right.Unmarked) :
    left.alphaEquivalent right = true ↔ left.nameless = right.nameless := by
  rw [alphaEquivalent, decide_eq_true_iff]
  constructor
  · intro sameForm
    calc
      left.nameless = left.canonical.nameless :=
        leftUnmarked.nameless_canonical.symm
      _ = right.canonical.nameless := by
        rw [sameForm]
      _ = right.nameless :=
        rightUnmarked.nameless_canonical
  · intro sameTerm
    rw [canonical_eq_named, canonical_eq_named, sameTerm]

/--
Terms whose free variables do not begin with the sign of canonical names are
found to be equivalent exactly if they become the same term when bound
occurrences refer to their binders by position. Their canonical forms are
normal forms: each is equivalent to its term in this sense, and it is its own
canonical form.
-/
theorem alphaEquivalent_iff_nameless_eq
    {left right : Term}
    (leftUnmarked : left.Unmarked)
    (rightUnmarked : right.Unmarked) :
    (left.alphaEquivalent right = true ↔ left.nameless = right.nameless) ∧
      left.canonical.nameless = left.nameless ∧
      left.canonical.canonical = left.canonical := by
  refine ⟨leftUnmarked.alphaEquivalent_iff rightUnmarked,
    leftUnmarked.nameless_canonical, ?_⟩
  calc
    left.canonical.canonical = left.canonical.nameless.named 0 :=
      canonical_eq_named left.canonical
    _ = left.nameless.named 0 := by
      rw [leftUnmarked.nameless_canonical]
    _ = left.canonical :=
      (canonical_eq_named left).symm

/-- The term λx.(∃x.R(x,z)) ∧ (∀y.R(y,x)), with a free variable z. -/
def shadowingQuantifiers : Term :=
  .bind .lambda ⟨"x", .entity⟩ (.connect .conjunction
    (.bind .existential ⟨"x", .entity⟩
      (.app (.const ⟨"R", .predicate (.prod [.entity, .entity])⟩)
        (.tuple [.var ⟨"x", .entity⟩, .var ⟨"z", .entity⟩])))
    (.bind .universal ⟨"y", .entity⟩
      (.app (.const ⟨"R", .predicate (.prod [.entity, .entity])⟩)
        (.tuple [.var ⟨"y", .entity⟩, .var ⟨"x", .entity⟩]))))

/-- The same with other bound names: λy.(∃x.R(x,z)) ∧ (∀x.R(x,y)). -/
def siblingQuantifiers : Term :=
  .bind .lambda ⟨"y", .entity⟩ (.connect .conjunction
    (.bind .existential ⟨"x", .entity⟩
      (.app (.const ⟨"R", .predicate (.prod [.entity, .entity])⟩)
        (.tuple [.var ⟨"x", .entity⟩, .var ⟨"z", .entity⟩])))
    (.bind .universal ⟨"x", .entity⟩
      (.app (.const ⟨"R", .predicate (.prod [.entity, .entity])⟩)
        (.tuple [.var ⟨"x", .entity⟩, .var ⟨"y", .entity⟩]))))

/-- A binder may shadow another one, and binders side by side may share a name. -/
theorem alphaEquivalent_shadowingQuantifiers_siblingQuantifiers :
    shadowingQuantifiers.Unmarked ∧
      siblingQuantifiers.Unmarked ∧
      shadowingQuantifiers.alphaEquivalent siblingQuantifiers = true ∧
      shadowingQuantifiers.canonical.nameless = shadowingQuantifiers.nameless := by
  have unmarked : shadowingQuantifiers.Unmarked :=
    unmarked_of_identifiers (by decide +kernel)
  have siblingsUnmarked : siblingQuantifiers.Unmarked :=
    unmarked_of_identifiers (by decide +kernel)
  obtain ⟨decision, canonical, _⟩ :=
    alphaEquivalent_iff_nameless_eq unmarked siblingsUnmarked
  exact ⟨unmarked, siblingsUnmarked, decision.mpr rfl, canonical⟩

end TypedLambda.Term
