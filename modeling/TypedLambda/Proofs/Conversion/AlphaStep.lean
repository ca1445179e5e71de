import TypedLambda.Proofs.Conversion.StepCases

namespace TypedLambda

/-!
# After a renaming

A step that renames is never followed by another one. The renaming leaves
nothing in the body that could capture a free variable of the argument, since
a binder that did has got a name that occurs nowhere in the argument. The
redex also stays where it is, and it still comes first: what is renamed is
inside the redex, and whether a redex comes first is decided outside of it.
-/

namespace Term

variable {name : String} {argument : Term}

@[simp] theorem not_captures_var (identifier : Identifier) :
    ¬Captures name argument (.var identifier) := by
  simp [captures_iff_children, children]

@[simp] theorem not_captures_const (identifier : Identifier) :
    ¬Captures name argument (.const identifier) := by
  simp [captures_iff_children, children]

/-- What is free after a variable has taken the place of another was free or is the new one. -/
theorem hasFree_of_hasFree_substitute_var
    {old new : String}
    {ty : Ty}
    {term : Term}
    (different : new ≠ name)
    (free : (substitute old (.var ⟨new, ty⟩) term).hasFree name = true) :
    term.hasFree name = true := by
  rcases hasFree_of_hasFree_substitute free with isNew | ⟨_, wasFree⟩
  · simp [hasFree, different] at isNew
  · exact wasFree

/-- A variable that takes the place of another one makes no capture possible. -/
theorem captures_of_captures_substitute_var
    {old new : String}
    {ty : Ty}
    {term : Term}
    (different : new ≠ name)
    (captures : Captures name argument (substitute old (.var ⟨new, ty⟩) term)) :
    Captures name argument term := by
  induction term with
  | var identifier =>
      rw [substitute] at captures
      split at captures
      · exact (not_captures_var _ captures).elim
      · exact captures
  | const identifier =>
      exact captures
  | bind binder bound body inductionHypothesis =>
      rw [substitute] at captures
      split at captures
      · exact captures
      · rw [captures_bind_iff] at captures ⊢
        exact ⟨captures.1, captures.2.imp inductionHypothesis fun both =>
          ⟨hasFree_of_hasFree_substitute_var different both.1, both.2⟩⟩
  | tuple items inductionHypothesis =>
      simp only [substitute, substituteAll_eq_map, captures_tuple_iff, List.mem_map] at captures ⊢
      obtain ⟨_, ⟨item, member, rfl⟩, captures⟩ := captures
      exact ⟨item, member, inductionHypothesis item member captures⟩
  | neg operand inductionHypothesis =>
      rw [substitute, captures_neg_iff] at captures
      exact captures_neg_iff.mpr (inductionHypothesis captures)
  | app _ _ firstHypothesis secondHypothesis
  | connect _ _ _ firstHypothesis secondHypothesis
  | equal _ _ firstHypothesis secondHypothesis
  | relate _ _ _ firstHypothesis secondHypothesis =>
      simp only [substitute, captures_app_iff, captures_connect_iff, captures_equal_iff,
        captures_relate_iff] at captures ⊢
      exact captures.imp firstHypothesis secondHypothesis

/-- What the walk makes of each term of a list it makes of the whole list. -/
theorem forall_mem_avoidCaptureInAll
    {holds : Term → Prop}
    {used : List String}
    {items : List Term}
    (inItem :
      ∀ item ∈ items, ∀ done, holds (avoidCapture used name argument item done).1)
    (done : List Renaming) :
    ∀ item ∈ (avoidCaptureInAll used name argument items done).1, holds item := by
  induction items generalizing done with
  | nil =>
      simp [avoidCaptureInAll]
  | cons head tail inductionHypothesis =>
      obtain ⟨inHead, inTail⟩ := List.forall_mem_cons.mp inItem
      exact List.forall_mem_cons.mpr ⟨inHead done, inductionHypothesis inTail _⟩

/-- The walk leaves nothing that could capture a free variable of the argument. -/
theorem not_captures_avoidCapture
    {used : List String}
    (nameUsed : name ∈ used)
    (freeUsed : ∀ other, argument.hasFree other = true → other ∈ used)
    (term : Term)
    (done : List Renaming) :
    ¬Captures name argument (avoidCapture used name argument term done).1 := by
  induction term generalizing done with
  | var identifier =>
      exact not_captures_var identifier
  | const identifier =>
      exact not_captures_const identifier
  | bind binder bound body inductionHypothesis =>
      have bodySafe := inductionHypothesis done
      by_cases same : bound.name = name
      · simp [avoidCapture, same, captures_bind_iff]
      · simp only [avoidCapture, same, ↓reduceIte]
        split
        · have fresh :=
            freshName_notMem
              (used ++ (avoidCapture used name argument body done).2.map Renaming.new) bound.name
          generalize freshName _ bound.name = new at fresh
          rw [List.mem_append, not_or] at fresh
          have notName : new ≠ name := fun isName => fresh.1 (isName ▸ nameUsed)
          rw [captures_bind_iff, not_and, not_or, not_and]
          refine fun _ => ⟨fun captures => ?_, fun _ free => fresh.1 (freeUsed new free)⟩
          exact bodySafe (captures_of_captures_substitute_var notName captures)
        · next notCapturing =>
            rw [Bool.and_eq_true, not_and] at notCapturing
            rw [captures_bind_iff, not_and, not_or, not_and]
            exact fun _ => ⟨bodySafe, fun free captured => notCapturing captured free⟩
  | tuple items inductionHypothesis =>
      simp only [avoidCapture, captures_tuple_iff, not_exists, not_and]
      exact forall_mem_avoidCaptureInAll inductionHypothesis done
  | neg operand inductionHypothesis =>
      simp only [avoidCapture, captures_neg_iff]
      exact inductionHypothesis done
  | app _ _ firstHypothesis secondHypothesis
  | connect _ _ _ firstHypothesis secondHypothesis
  | equal _ _ firstHypothesis secondHypothesis
  | relate _ _ _ firstHypothesis secondHypothesis =>
      simp only [avoidCapture, captures_app_iff, captures_connect_iff, captures_equal_iff,
        captures_relate_iff, not_or]
      exact ⟨firstHypothesis done, secondHypothesis _⟩

/-- A node is a redex or not by the form of what stands in its hole. -/
theorem fill_ne_toTerm_of_form_eq
    {frame : Frame}
    {left right : Term}
    (sameForm : left.form = right.form)
    (notHere : ∀ redex : Redex, frame.fill left ≠ redex.toTerm)
    (redex : Redex) :
    frame.fill right ≠ redex.toTerm := by
  intro isRedex
  cases frame with
  | function argument =>
      simp only [Frame.fill, Redex.toTerm, Redex.function, Term.app.injEq] at isRedex
      rw [isRedex.1] at sameForm
      cases left with
      | bind binder bound body =>
          cases sameForm
          exact notHere ⟨bound, body, argument⟩ rfl
      | _ =>
          cases sameForm
  | argument function =>
      simp only [Frame.fill, Redex.toTerm, Redex.function, Term.app.injEq] at isRedex
      refine notHere ⟨redex.bound, redex.body, left⟩ ?_
      simp [Frame.fill, Redex.toTerm, Redex.function, isRedex.1]
  | _ =>
      cases isRedex

/-- The form of a term with a hole that is not the hole is that of its outermost node. -/
theorem form_fill_eq
    (context : Context)
    {left right : Term}
    (sameForm : left.form = right.form) :
    (Context.fill context left).form = (Context.fill context right).form := by
  cases context with
  | nil =>
      exact sameForm
  | cons frame rest =>
      cases frame <;> rfl

end Term

namespace PlacedRedex

/-- Whether a redex comes first is decided by its place. -/
theorem IsLeftmost.of_place
    {place : PlacedRedex}
    (leftmost : place.IsLeftmost)
    (redex : Redex) :
    IsLeftmost ⟨place.context, redex⟩ := by
  induction leftmost with
  | here _ =>
      exact .here redex
  | under frame place _ notHere notBefore inductionHypothesis =>
      have sameForm :
          place.whole.form = (PlacedRedex.whole ⟨place.context, redex⟩).form :=
        Term.form_fill_eq place.context rfl
      exact .under frame ⟨place.context, redex⟩ inductionHypothesis
        (Term.fill_ne_toTerm_of_form_eq sameForm notHere) notBefore

end PlacedRedex

namespace Redex

/-- The redex with the capturing binders of its body renamed. -/
def renamed (redex : Redex) : Redex :=
  ⟨redex.bound, redex.renamedBody.1, redex.argument⟩

/-- After the renaming the argument can be put in naively. -/
theorem not_captures_renamed (redex : Redex) : ¬redex.renamed.Captures := by
  refine Term.not_captures_avoidCapture List.mem_cons_self (fun other free => ?_)
    redex.body []
  have occurs := Term.mem_nameOccurrences_of_hasFree free
  exact List.mem_cons_of_mem _ (List.mem_append_right _ occurs)

end Redex

namespace Term

/-- What a renaming step does, and where the search for the next step ends up. -/
theorem leftmostRedex?_of_alpha
    {term : Term}
    {step : Step}
    (stepped : term.step? = .ok (some step))
    (alpha : step.kind = .alpha) :
    ∃ place : PlacedRedex,
      term.leftmostRedex? = some place ∧
        step.result = place.replace place.redex.renamed.toTerm ∧
        step.result.leftmostRedex? = some ⟨place.context, place.redex.renamed⟩ := by
  obtain ⟨place, contraction, found, contracted, rfl⟩ := step?_cases stepped
  obtain ⟨_, _, _, _, _, _, _, _, _, safe | capturing⟩ := Redex.contract_cases contracted
  · obtain ⟨_, kind, _⟩ := safe
    have isAlpha : contraction.kind = .alpha := alpha
    rw [kind] at isAlpha
    cases isAlpha
  · obtain ⟨_, _, result⟩ := capturing
    have shape :
        place.replace contraction.result = place.replace place.redex.renamed.toTerm := by
      rw [result]
      rfl
    refine ⟨place, found, shape, ?_⟩
    rw [leftmostRedex?_eq_some_iff]
    have leftmost := (isLeftmost_of_leftmostRedex? found).2
    exact ⟨shape.symm, leftmost.of_place place.redex.renamed⟩

/-- A step that renames is followed by one that puts the argument in. -/
theorem kind_eq_beta_of_alpha
    {term : Term}
    {step next : Step}
    (stepped : term.step? = .ok (some step))
    (alpha : step.kind = .alpha)
    (steppedAgain : step.result.step? = .ok (some next)) :
    next.kind = .beta := by
  obtain ⟨place, _, _, foundAgain⟩ := leftmostRedex?_of_alpha stepped alpha
  obtain ⟨nextPlace, contraction, found, contracted, rfl⟩ := step?_cases steppedAgain
  rw [foundAgain, Option.some.injEq] at found
  subst found
  obtain ⟨_, _, _, _, _, _, _, _, _, safe | capturing⟩ := Redex.contract_cases contracted
  · exact safe.2.1
  · exact (place.redex.not_captures_renamed capturing.1).elim

end Term

end TypedLambda
