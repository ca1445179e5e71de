import TypedLambda.Ty.Basic

namespace TypedLambda.Ty

/-!
# The order of types

Basic types come before variables, variables before function types and these
before products. Types of one form compare by their parts from left to right;
of two products whose factors agree as far as both go, the shorter comes
first. Equality of types is decided by this comparison.
-/

mutual

/-- How a type compares with another one. -/
def compare : Ty → Ty → Ordering
  | .atom left, .atom right => Ord.compare left right
  | .atom _, _ => .lt
  | .var _, .atom _ => .gt
  | .var left, .var right => Ord.compare left right
  | .var _, _ => .lt
  | .fn domain range, .fn otherDomain otherRange =>
      (domain.compare otherDomain).then (range.compare otherRange)
  | .fn _ _, .prod _ => .lt
  | .fn _ _, _ => .gt
  | .prod factors, .prod others => compareAll factors others
  | .prod _, _ => .gt

/-- How a list of types compares with another one, the shorter first. -/
def compareAll : List Ty → List Ty → Ordering
  | [], [] => .eq
  | [], _ :: _ => .lt
  | _ :: _, [] => .gt
  | left :: lefts, right :: rights =>
      (left.compare right).then (compareAll lefts rights)

end

instance : Ord Ty := ⟨compare⟩

/-- Types compare as equal only if they are. -/
theorem compare_eq_iff {left right : Ty} :
    left.compare right = .eq ↔ left = right := by
  induction left generalizing right with
  | atom letter =>
      cases right <;> simp [compare]
  | var letter =>
      cases right <;> simp [compare]
  | fn domain range domainHypothesis rangeHypothesis =>
      cases right <;>
        simp [compare, Ordering.then_eq_eq, domainHypothesis, rangeHypothesis]
  | prod factors inductionHypothesis =>
      cases right with
      | prod others =>
          simp only [compare, Ty.prod.injEq]
          induction factors generalizing others with
          | nil =>
              cases others <;> simp [compareAll]
          | cons head tail tailHypothesis =>
              cases others with
              | nil =>
                  simp [compareAll]
              | cons other others =>
                  simp [compareAll, Ordering.then_eq_eq,
                    inductionHypothesis head (by simp),
                    tailHypothesis (fun factor member =>
                      inductionHypothesis factor (by simp [member]))]
      | _ =>
          simp [compare]

instance : DecidableEq Ty := fun left right =>
  decidable_of_iff (left.compare right = .eq) compare_eq_iff

/-- Whether a type comes no later than another one. -/
def precedes (left right : Ty) : Bool :=
  left.compare right != .gt

end TypedLambda.Ty
