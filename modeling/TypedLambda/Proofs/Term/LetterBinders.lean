import TypedLambda.Proofs.Term.LongestBodies

namespace TypedLambda.Term

/-!
# Letters for binders

Letting the letters L, A, E and I stand for binders changes no text that is
read without them. A letter that would be taken for a binder has names and a
dot behind it. Read as a name it would be an operand, and behind an operand
neither a name nor a dot can follow.
-/

namespace Reader

open Grammar

variable {options : ReadingOptions}
variable {first second last : Configuration}

/-- On the way to the end, neither a name nor a dot comes behind an operand. -/
theorem Follows.ends
    {operand : Term}
    {pending : List Pending}
    {outer : List Level}
    {tokens : List Token}
    (follows : Follows options ⟨⟨.operator operand, pending, outer⟩, tokens⟩ last)
    (finished : last.ahead = []) :
    Ends tokens := by
  intro token isNext
  obtain ⟨rest, rfl⟩ := List.head?_eq_some_iff.mp isNext
  rcases Relation.ReflTransGen.cases_head follows with rfl | ⟨middle, step, _⟩
  · cases finished
  · cases step with
    | sign isSign =>
        cases isSign <;> simp
    | _ =>
        simp

/-- A step on the way to the end is the same if letters may stand for binders. -/
theorem Step.letterBinders
    (without : options.letterBinders = false)
    (step : Step options first second)
    (follows : Follows options second last)
    (finished : last.ahead = []) :
    Step { options with letterBinders := true } first second := by
  cases step with
  | letter stands =>
      cases stands with
      | alone allowed | fused allowed =>
          rw [without] at allowed
          cases allowed
  | name _ known =>
      exact .name (fun _ _ _ => (follows.ends finished).not_heads) known
  | negation =>
      exact .negation
  | symbol =>
      exact .symbol
  | openGroup =>
      exact .openGroup
  | openBracket =>
      exact .openBracket
  | bound binds =>
      exact .bound binds
  | dot nonempty =>
      exact .dot nonempty
  | openCall =>
      exact .openCall
  | sign isSign completed =>
      exact .sign isSign completed
  | connective completed =>
      exact .connective completed
  | comma lists =>
      exact .comma lists
  | closeParenthesis lists =>
      exact .closeParenthesis lists
  | closeBracket =>
      exact .closeBracket

/-- Steps that lead to the end are the same if letters may stand for binders. -/
theorem Follows.letterBinders
    (without : options.letterBinders = false)
    (follows : Follows options first last)
    (finished : last.ahead = []) :
    Follows { options with letterBinders := true } first last := by
  induction follows using Relation.ReflTransGen.head_induction_on with
  | refl =>
      exact .refl
  | head step further inductionHypothesis =>
      exact .head (step.letterBinders without further finished) inductionHypothesis

end Reader

/-- What is read without letters for binders is read as the same term with them. -/
theorem read_letterBinders
    {options : ReadingOptions}
    {text : String}
    {term : Term}
    (without : options.letterBinders = false)
    (result : read options text = .ok term) :
    read { options with letterBinders := true } text = .ok term := by
  obtain ⟨scan, scanned, _⟩ := Outcome.bind_eq_ok_iff.mp result
  obtain ⟨last, pending, follows, isTerm⟩ :=
    Reader.run_eq_ok_iff.mp ((read_eq_ok_iff_run scanned).mp result)
  have scannedAlike :
      Token.scan { options with letterBinders := true }.style text = .ok scan :=
    scanned
  exact (read_eq_ok_iff_run scannedAlike).mpr
    (Reader.run_eq_ok_iff.mpr ⟨last, pending, follows.letterBinders without rfl, isTerm⟩)

/-- The letters A and E for predicates, where they could also stand for quantifiers. -/
theorem read_letterBinders_predicateLetters :
    read ⟨false, .singleLetter, .standard⟩ "∀x.A(x) → E(x)" =
        .ok (.bind .universal ⟨"x", .entity⟩
          (.connect .conditional
            (.app (.const ⟨"A", .predicate .entity⟩) (.var ⟨"x", .entity⟩))
            (.app (.const ⟨"E", .predicate .entity⟩) (.var ⟨"x", .entity⟩)))) ∧
      read ⟨true, .singleLetter, .standard⟩ "∀x.A(x) → E(x)" =
        .ok (.bind .universal ⟨"x", .entity⟩
          (.connect .conditional
            (.app (.const ⟨"A", .predicate .entity⟩) (.var ⟨"x", .entity⟩))
            (.app (.const ⟨"E", .predicate .entity⟩) (.var ⟨"x", .entity⟩)))) := by
  have without :
      read ⟨false, .singleLetter, .standard⟩ "∀x.A(x) → E(x)" =
        .ok (.bind .universal ⟨"x", .entity⟩
          (.connect .conditional
            (.app (.const ⟨"A", .predicate .entity⟩) (.var ⟨"x", .entity⟩))
            (.app (.const ⟨"E", .predicate .entity⟩) (.var ⟨"x", .entity⟩)))) := rfl
  exact ⟨without, read_letterBinders rfl without⟩

end TypedLambda.Term
