import Mathlib.Data.List.Sort
import TypedLambda.Proofs.Typing.Specialisation

namespace TypedLambda

/-!
# Substitutions act on types and terms

Substitutions are a monoid under composition: grouping makes no difference,
and the empty substitution changes nothing on either side. This monoid acts on
types and on terms. Nothing is assumed of the substitutions: they may replace
the same variables, and they may replace variables that another one brings in.
-/

namespace Ty.Substitution

/-- Substitutions that give every variable the same type are equal. -/
theorem ext_get?
    {first second : Substitution}
    (same : ∀ letter, first.get? letter = second.get? letter) :
    first = second := by
  have irreflexive : Std.Irrefl fun earlier later : Char × Ty => earlier.1 < later.1 :=
    ⟨fun entry => Std.lt_irrefl⟩
  have antisymmetric : Std.Antisymm fun earlier later : Char × Ty => earlier.1 < later.1 :=
    ⟨fun _ _ below above => (Std.lt_irrefl (Char.lt_trans below above)).elim⟩
  refine Substitution.ext (first.ascending.eq_of_mem_iff second.ascending ?_)
  intro entry
  obtain ⟨letter, ty⟩ := entry
  rw [mem_entries_iff, mem_entries_iff, same]

/-- It makes no difference which two of three substitutions are composed first. -/
theorem compose_assoc (outer middle inner : Substitution) :
    outer.compose (middle.compose inner) = (outer.compose middle).compose inner := by
  refine ext_get? fun letter => ?_
  simp only [get?_compose]
  cases inner.get? letter with
  | some image =>
      simp [apply_compose]
  | none =>
      cases middle.get? letter <;> simp

theorem empty_compose (substitution : Substitution) :
    empty.compose substitution = substitution := by
  refine ext_get? fun letter => ?_
  rw [get?_compose, get?_empty]
  cases substitution.get? letter <;> simp

theorem compose_empty (substitution : Substitution) :
    substitution.compose empty = substitution :=
  rfl

end Ty.Substitution

namespace Term

/-- Two instantiations in a row are one by the composition. -/
theorem instantiate_instantiate
    (outer inner : Ty.Substitution)
    (term : Term) :
    (term.instantiate inner).instantiate outer = term.instantiate (outer.compose inner) := by
  have pointwise : outer.apply ∘ inner.apply = (outer.compose inner).apply :=
    funext fun ty => (Ty.Substitution.apply_compose outer inner ty).symm
  simp only [instantiate_eq_mapTypes, mapTypes_mapTypes, pointwise]

end Term

/--
Substitutions form a monoid that acts on types and terms: a composition acts as
its parts do in turn, composition is associative, and the empty substitution is
its identity on both sides and leaves every type and term as it is.
-/
theorem Ty.Substitution.compose_acts
    (outer middle inner : Substitution)
    (ty : Ty)
    (term : Term) :
    (outer.compose inner).apply ty = outer.apply (inner.apply ty) ∧
      (term.instantiate inner).instantiate outer = term.instantiate (outer.compose inner) ∧
      outer.compose (middle.compose inner) = (outer.compose middle).compose inner ∧
      (empty.compose outer = outer ∧ outer.compose empty = outer) ∧
      empty.apply ty = ty ∧
      term.instantiate empty = term :=
  ⟨apply_compose outer inner ty, term.instantiate_instantiate outer inner,
    compose_assoc outer middle inner, ⟨empty_compose outer, compose_empty outer⟩,
    apply_empty ty, term.instantiate_empty⟩

/-- Exchanging two variables twice still has an entry for each, which keeps the variable. -/
example :
    (Ty.Substitution.ofList [('a', .var 'b'), ('b', .var 'a')]).compose
        (.ofList [('a', .var 'b'), ('b', .var 'a')]) =
      .ofList [('a', .var 'a'), ('b', .var 'b')] := by
  decide

end TypedLambda
