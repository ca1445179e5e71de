import TypedLambda.Ty.Order

namespace TypedLambda.Ty

/-!
# The order of types is linear

Comparing two types the other way round gives the opposite outcome, and what
comes before a type comes before everything behind that type. Types that
compare as equal are the same, so the order in which types are reported is
linear.
-/

/-- Comparing two types the other way round gives the opposite outcome. -/
theorem swap_compare (left right : Ty) :
    (left.compare right).swap = right.compare left := by
  induction left generalizing right with
  | atom letter | var letter =>
      cases right <;> simp only [compare, Ordering.swap_lt, Ordering.swap_gt]
      exact Std.OrientedCmp.eq_swap.symm
  | fn domain range domainHypothesis rangeHypothesis =>
      cases right with
      | fn otherDomain otherRange =>
          simp only [compare, Ordering.swap_then, domainHypothesis, rangeHypothesis]
      | _ =>
          rfl
  | prod factors inductionHypothesis =>
      cases right with
      | prod others =>
          simp only [compare]
          induction factors generalizing others with
          | nil =>
              cases others <;> rfl
          | cons factor factors tailHypothesis =>
              cases others with
              | nil =>
                  rfl
              | cons other others =>
                  simp only [compareAll, Ordering.swap_then,
                    inductionHypothesis factor (by simp),
                    tailHypothesis (fun part member =>
                      inductionHypothesis part (by simp [member]))]
      | _ =>
          rfl

/-- What comes before a type comes before everything behind it. -/
theorem compare_lt_trans
    {left middle right : Ty}
    (first : left.compare middle = .lt)
    (second : middle.compare right = .lt) :
    left.compare right = .lt := by
  induction left generalizing middle right with
  | atom letter | var letter =>
      cases middle <;> cases right <;> simp only [compare, reduceCtorEq] at first second ⊢
      exact Std.TransCmp.lt_trans first second
  | fn domain range domainHypothesis rangeHypothesis =>
      cases middle <;> cases right <;> simp only [compare, reduceCtorEq] at first second ⊢
      simp only [Ordering.then_eq_lt, compare_eq_iff] at first second ⊢
      grind
  | prod factors inductionHypothesis =>
      cases middle <;> cases right <;> simp only [compare, reduceCtorEq] at first second ⊢
      next others lasts =>
        induction factors generalizing others lasts with
        | nil =>
            cases others <;> cases lasts <;> simp_all [compareAll]
        | cons factor factors tailHypothesis =>
            cases others <;> cases lasts <;> simp only [compareAll, reduceCtorEq] at first second ⊢
            have heads := @inductionHypothesis factor (by simp)
            have tails := tailHypothesis fun part member =>
              @inductionHypothesis part (by simp [member])
            simp only [Ordering.then_eq_lt, compare_eq_iff] at first second ⊢
            grind

/-- A type comes no later than another one if it comes before it or is the same. -/
theorem precedes_iff {left right : Ty} :
    left.precedes right = true ↔ left.compare right = .lt ∨ left = right := by
  rw [precedes, bne_iff_ne, ← compare_eq_iff]
  cases left.compare right <;> simp

theorem precedes_total (left right : Ty) :
    left.precedes right = true ∨ right.precedes left = true := by
  rw [precedes, precedes, ← swap_compare left right]
  cases left.compare right <;> simp

theorem precedes_trans
    {left middle right : Ty}
    (first : left.precedes middle = true)
    (second : middle.precedes right = true) :
    left.precedes right = true := by
  rw [precedes_iff] at first second ⊢
  rcases first with first | rfl
  · rcases second with second | rfl
    · exact .inl (compare_lt_trans first second)
    · exact .inl first
  · exact second

theorem precedes_antisymm
    {left right : Ty}
    (first : left.precedes right = true)
    (second : right.precedes left = true) :
    left = right := by
  rw [precedes, ← swap_compare left right] at second
  rcases precedes_iff.mp first with before | same
  · simp [before] at second
  · exact same

end TypedLambda.Ty
