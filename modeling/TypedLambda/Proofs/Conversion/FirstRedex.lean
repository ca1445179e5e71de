import TypedLambda.Proofs.Conversion.Positions

namespace TypedLambda.Term

/-!
# The first redex

An action on the leftmost redex is run once, on the redex that comes first of
all when the term is gone through from the root downwards and from left to
right, and its result takes the place of that redex and of nothing else. In a
term without redexes it is not run.
-/

/-- There is a redex at the position, and all others are at later positions. -/
structure IsFirstRedex (term : Term) (position : List Nat) (redex : Redex) : Prop where
  isPart : term.partAt position = some redex.toTerm
  isFirst :
    ∀ (other : List Nat) (otherRedex : Redex),
      term.partAt other = some otherRedex.toTerm →
        other = position ∨ List.Lex (· < ·) position other

/-- A term without redexes has none at any position. -/
theorem RedexFree.partAt_ne
    {term : Term}
    (free : term.RedexFree)
    (position : List Nat)
    (redex : Redex) :
    term.partAt position ≠ some redex.toTerm := by
  intro isPart
  obtain ⟨context, whole⟩ := exists_fill_of_partAt isPart
  exact free context redex whole.symm

/-- The place that comes first among the frames has the first position. -/
theorem isFirstRedex_of_isLeftmost
    {place : PlacedRedex}
    (leftmost : place.IsLeftmost) :
    place.whole.IsFirstRedex place.context.position place.redex := by
  induction leftmost with
  | here redex =>
      refine ⟨rfl, fun other _ _ => ?_⟩
      cases other with
      | nil =>
          exact .inl rfl
      | cons index below =>
          exact .inr .nil
  | under frame place _ notHere notBefore inductionHypothesis =>
      refine ⟨Context.partAt_position _ _, fun other otherRedex isPart => ?_⟩
      cases other with
      | nil =>
          exact (notHere otherRedex (Option.some.inj isPart)).elim
      | cons index below =>
          obtain ⟨child, isChild, inChild⟩ := Option.bind_eq_some_iff.mp isPart
          rw [PlacedRedex.whole_under] at isChild
          rcases Nat.lt_trichotomy index frame.index with left | rfl | right
          · -- A child to the left of the way has no redex at all.
            rw [frame.children_fill, List.getElem?_append_left left] at isChild
            exact ((notBefore child (List.mem_of_getElem? isChild)).partAt_ne below _ inChild).elim
          · obtain rfl : place.whole = child := by
              simpa [frame.children_fill_index] using isChild
            rcases inductionHypothesis.isFirst below otherRedex inChild with rfl | later
            · exact .inl rfl
            · exact .inr (.cons later)
          · exact .inr (.rel right)

universe u

/--
An action on the leftmost redex. In a term without redexes it is not run.
Otherwise it is run once, on the first redex, and fails as it fails; what it
returns replaces that redex, and every other part stays the same.
-/
theorem replaceLeftmostRedexM_eq
    {m : Type → Type u}
    [Monad m]
    (action : Redex → m Term)
    (term : Term) :
    ((∀ (position : List Nat) (redex : Redex), term.partAt position ≠ some redex.toTerm) ∧
        term.replaceLeftmostRedexM action = pure none) ∨
      ∃ position redex,
        term.IsFirstRedex position redex ∧
          (∀ replacement,
            Replaced position replacement term (term.replaceAt position replacement)) ∧
          term.replaceLeftmostRedexM action = do
            let replacement ← action redex
            return some (term.replaceAt position replacement) := by
  cases found : term.leftmostRedex? with
  | none =>
      have free : term.RedexFree := leftmostRedex?_eq_none_iff.mp found
      refine .inl ⟨free.partAt_ne, ?_⟩
      rw [replaceLeftmostRedexM, found]
  | some place =>
      obtain ⟨rfl, leftmost⟩ := isLeftmost_of_leftmostRedex? found
      have replaced (replacement : Term) :
          place.whole.replaceAt place.context.position replacement = place.replace replacement :=
        Context.replaceAt_position place.context _ replacement
      have isFirst := isFirstRedex_of_isLeftmost leftmost
      refine .inr ⟨place.context.position, place.redex, isFirst, ?_, ?_⟩
      · intro replacement
        rw [replaced]
        exact Context.replaced place.context _ replacement
      · simp only [replaced, replaceLeftmostRedexM, found]

/-- Of two redexes side by side, the action notes down and replaces the left one only. -/
example (left right : Redex) :
    let noted : StateM (List Redex) (Option Term) :=
      (Term.connect .conjunction left.toTerm right.toTerm).replaceLeftmostRedexM fun redex => do
        modify (· ++ [redex])
        return redex.argument
    noted.run [] = (some (.connect .conjunction left.argument right.toTerm), [left]) :=
  rfl

end TypedLambda.Term
