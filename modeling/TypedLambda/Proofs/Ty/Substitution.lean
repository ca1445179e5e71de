import TypedLambda.Ty.Substitution

namespace TypedLambda.Ty.Substitution

/-!
# Laws of substitution

A composition acts as its parts do in turn, and what a substitution does to a
type is settled by what it does to the variables of the type. One substitution
absorbs another one if it makes no difference whether the other one has been
applied before it. A substitution is resolved if no type that it gives to a
variable mentions a variable that it replaces; it then absorbs itself.
-/

/-- A composition acts like the inner substitution followed by the outer one. -/
theorem apply_compose
    (outer inner : Substitution)
    (ty : Ty) :
    (outer.compose inner).apply ty = outer.apply (inner.apply ty) := by
  induction ty with
  | atom letter =>
      rfl
  | var letter =>
      simp only [apply, get?_compose]
      cases inner.get? letter <;> rfl
  | fn domain range domainHypothesis rangeHypothesis =>
      simp only [apply, domainHypothesis, rangeHypothesis]
  | prod factors inductionHypothesis =>
      simp only [apply, applyAll_eq_map, List.map_map, Ty.prod.injEq]
      exact List.map_congr_left inductionHypothesis

/-- Substitutions that agree on the variables of a type do the same to it. -/
theorem apply_congr
    {first second : Substitution}
    {ty : Ty}
    (agree :
      ∀ letter ∈ ty.letters,
        first.apply (.var letter) = second.apply (.var letter)) :
    first.apply ty = second.apply ty := by
  induction ty with
  | atom letter =>
      rfl
  | var letter =>
      exact agree letter (by simp [letters])
  | fn domain range domainHypothesis rangeHypothesis =>
      have domains := domainHypothesis fun letter member =>
        agree letter (by simp [letters, member])
      have ranges := rangeHypothesis fun letter member =>
        agree letter (by simp [letters, member])
      simp only [apply, domains, ranges]
  | prod factors inductionHypothesis =>
      simp only [apply, applyAll_eq_map, Ty.prod.injEq]
      exact List.map_congr_left fun factor isFactor =>
        inductionHypothesis factor isFactor fun letter member =>
          agree letter (mem_letters_prod.mpr ⟨factor, isFactor, member⟩)

@[simp] theorem apply_empty (ty : Ty) : empty.apply ty = ty := by
  induction ty with
  | prod factors inductionHypothesis =>
      simp only [apply, applyAll_eq_map, Ty.prod.injEq]
      exact (List.map_congr_left inductionHypothesis).trans (List.map_id _)
  | _ =>
      simp_all [apply]

/-- A type without variables to replace stays as it is. -/
theorem apply_eq_self
    {substitution : Substitution}
    {ty : Ty}
    (unbound : ∀ letter ∈ ty.letters, substitution.get? letter = none) :
    substitution.apply ty = ty := by
  have asEmpty : substitution.apply ty = empty.apply ty :=
    apply_congr fun letter member => by simp [apply, unbound letter member]
  simpa using asEmpty

/-- The entries are what the variables are given. -/
theorem mem_entries_iff
    {substitution : Substitution}
    {letter : Char}
    {ty : Ty} :
    (letter, ty) ∈ substitution.entries ↔
      substitution.get? letter = some ty := by
  obtain ⟨entries, ascending⟩ := substitution
  unfold get?
  simp only
  induction entries with
  | nil =>
      simp [entryOf?]
  | cons entry rest inductionHypothesis =>
      obtain ⟨key, image⟩ := entry
      obtain ⟨above, ascendingRest⟩ := List.pairwise_cons.mp ascending
      by_cases same : letter = key
      · subst same
        have notLater : (letter, ty) ∉ rest := fun member =>
          Std.lt_irrefl (above (letter, ty) member)
        simp [entryOf?, notLater, eq_comm]
      · simp [entryOf?, same, inductionHypothesis ascendingRest]

/-- Applying the inner substitution first makes no difference to the outer one. -/
def Absorbs (outer inner : Substitution) : Prop :=
  ∀ ty, outer.apply (inner.apply ty) = outer.apply ty

theorem absorbs_empty (substitution : Substitution) :
    substitution.Absorbs empty := fun ty => by
  rw [apply_empty]

/-- A single replacement is absorbed by what makes the variable and its type the same. -/
theorem absorbs_single_iff
    {substitution : Substitution}
    {letter : Char}
    {ty : Ty} :
    substitution.Absorbs (single letter ty) ↔
      substitution.apply (.var letter) = substitution.apply ty := by
  constructor
  · intro absorbs
    have atLetter := absorbs (.var letter)
    simpa [apply] using atLetter.symm
  · intro same other
    rw [← apply_compose]
    refine apply_congr fun key _ => ?_
    rw [apply_compose]
    by_cases isLetter : key = letter
    · simpa [apply, isLetter] using same.symm
    · simp [apply, isLetter]

/-- A composition is absorbed if both its parts are. -/
theorem Absorbs.compose
    {substitution outer inner : Substitution}
    (absorbsOuter : substitution.Absorbs outer)
    (absorbsInner : substitution.Absorbs inner) :
    substitution.Absorbs (outer.compose inner) := by
  intro ty
  rw [apply_compose, absorbsOuter, absorbsInner]

/-- No type given to a variable mentions a variable that is replaced. -/
def Resolved (substitution : Substitution) : Prop :=
  ∀ letter image, substitution.get? letter = some image →
    ∀ other ∈ image.letters, substitution.get? other = none

theorem resolved_empty : empty.Resolved := by
  simp [Resolved]

/-- A resolved substitution absorbs itself: applying it twice is applying it once. -/
theorem Resolved.absorbs_self
    {substitution : Substitution}
    (resolved : substitution.Resolved) :
    substitution.Absorbs substitution := by
  intro ty
  rw [← apply_compose]
  refine apply_congr fun letter _ => ?_
  rw [apply_compose]
  cases found : substitution.get? letter with
  | none =>
      simp [apply, found]
  | some image =>
      simpa [apply, found] using
        apply_eq_self (resolved letter image found)

end TypedLambda.Ty.Substitution
