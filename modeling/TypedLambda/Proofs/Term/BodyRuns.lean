import TypedLambda.Proofs.Term.Acceptance
import TypedLambda.Proofs.Term.ReadDerivations

namespace TypedLambda.Term.Reader

/-!
# Bodies by themselves

What stands around a binder does not matter to how its body is read, as long as
the body is open: the reader makes the same of it as if it stood by itself. And
it closes the body exactly where it would be stuck then. So every body that it
has closed is the longest one.
-/

open Grammar

variable {options : ReadingOptions} {first rest : List Token}
variable {binder : Binder} {bound : List Identifier}
variable {pending remaining outside : List Pending} {outer levels : List Level}
variable {last left : Term}

/-- The pending operators of a level, with those outside of all levels behind the outermost. -/
def beneath (outside : List Pending) : List Level → List Pending → List Pending
  | [], pending => pending ++ outside
  | _ :: _, pending => pending

/-- The open levels, with others around them. -/
def surround (outside : List Pending) (outer : List Level) : List Level → List Level
  | [] => outer
  | level :: levels =>
      ⟨level.opening, beneath outside levels level.pending⟩ :: surround outside outer levels

/-- The configuration with operators and levels around everything that is open. -/
def Configuration.within
    (configuration : Configuration)
    (outside : List Pending)
    (outer : List Level) :
    Configuration :=
  ⟨⟨configuration.state.mode,
      beneath outside configuration.state.outer configuration.state.pending,
      surround outside outer configuration.state.outer⟩,
    configuration.ahead⟩

theorem beneath_cons (operator : Pending) :
    beneath outside levels (operator :: pending) =
      operator :: beneath outside levels pending := by
  cases levels <;> rfl

theorem completeToRelation_append_binder
    {isRelation : Bool}
    (completed : completeToRelation isRelation last pending = some (left, remaining)) :
    completeToRelation isRelation last (pending ++ .binder binder bound :: outside) =
      some (left, remaining ++ .binder binder bound :: outside) := by
  induction pending generalizing isRelation last with
  | nil =>
      cases isRelation <;> cases completed
      rfl
  | cons operator pending inductionHypothesis =>
      cases operator with
      | negation | equation | relation =>
          exact inductionHypothesis completed
      | connective | binder =>
          cases isRelation with
          | false =>
              cases completed
              rfl
          | true =>
              exact inductionHypothesis completed

theorem completeDown_append_binder
    {strength : Nat}
    (positive : 0 < strength)
    (completed : completeDown strength last pending = (left, remaining)) :
    completeDown strength last (pending ++ .binder binder bound :: outside) =
      (left, remaining ++ .binder binder bound :: outside) := by
  induction pending generalizing last with
  | nil =>
      cases completed
      have weak : ¬ strength ≤ (Pending.binder binder bound).strength :=
        Nat.not_le.mpr positive
      rw [List.nil_append, completeDown, if_neg weak]
  | cons operator pending inductionHypothesis =>
      rw [completeDown] at completed
      rw [List.cons_append, completeDown]
      split at completed
      · next strong =>
          rw [if_pos strong]
          exact inductionHypothesis completed
      · next weak =>
          cases completed
          rw [if_neg weak]
          rfl

theorem completeToRelation_beneath
    (completed : completeToRelation false last pending = some (left, remaining)) :
    completeToRelation false last
        (beneath (.binder binder bound :: outside) levels pending) =
      some (left, beneath (.binder binder bound :: outside) levels remaining) := by
  cases levels with
  | nil =>
      exact completeToRelation_append_binder completed
  | cons =>
      exact completed

theorem completeDown_beneath
    {strength : Nat}
    (positive : 0 < strength)
    (completed : completeDown strength last pending = (left, remaining)) :
    completeDown strength last
        (beneath (.binder binder bound :: outside) levels pending) =
      (left, beneath (.binder binder bound :: outside) levels remaining) := by
  cases levels with
  | nil =>
      exact completeDown_append_binder positive completed
  | cons =>
      exact completed

/-- What is read by itself is read in the same way in the body of a binder. -/
theorem Step.within
    {before behind : Configuration}
    (step : Step options before behind) :
    Step options (before.within (.binder binder bound :: outside) outer)
      (behind.within (.binder binder bound :: outside) outer) := by
  cases step with
  | negation =>
      simp only [Configuration.within, beneath_cons]
      exact .negation
  | symbol =>
      exact .symbol
  | letter stands binds =>
      exact .letter stands binds
  | name noBinder known =>
      exact .name noBinder known
  | openGroup =>
      exact .openGroup
  | openBracket =>
      exact .openBracket
  | bound binds =>
      exact .bound binds
  | dot nonempty =>
      simp only [Configuration.within, beneath_cons]
      exact .dot nonempty
  | openCall =>
      exact .openCall
  | sign isSign completed =>
      simp only [Configuration.within, beneath_cons]
      exact .sign isSign (completeToRelation_beneath completed)
  | connective completed =>
      simp only [Configuration.within, beneath_cons]
      exact .connective
        (completeDown_beneath (Category.leftStrength_pos _) completed)
  | comma lists =>
      exact .comma lists
  | closeParenthesis lists =>
      exact .closeParenthesis lists
  | closeBracket =>
      exact .closeBracket

theorem Follows.within
    {before behind : Configuration}
    (follows : Follows options before behind) :
    Follows options (before.within (.binder binder bound :: outside) outer)
      (behind.within (.binder binder bound :: outside) outer) := by
  induction follows with
  | refl =>
      exact .refl
  | tail _ step inductionHypothesis =>
      exact inductionHypothesis.tail step.within

/-- The reader has read the body of a pending binder as it would by itself. -/
theorem follows_body
    {deeper : List Pending}
    {body : List Token}
    {term : Term}
    (begun :
      Follows options ⟨start, first⟩ ⟨⟨.operand, .binder binder bound :: outside, outer⟩, body⟩)
    (reached :
      Follows options ⟨start, first⟩
        ⟨⟨.operator last, deeper ++ .binder binder bound :: outside, outer⟩, rest⟩)
    (derives : Derives options AnyBody .equivalence body rest term) :
    Follows options ⟨start, body⟩ ⟨⟨.operator last, deeper, []⟩, rest⟩ := by
  obtain ⟨lastAlone, deeperAlone, alone⟩ := exists_follows_of_derives derives
  -- The same run behind the binder ends in front of the same tokens as the given one.
  have inBody :
      Follows options ⟨⟨.operand, .binder binder bound :: outside, outer⟩, body⟩
        ⟨⟨.operator lastAlone, deeperAlone ++ .binder binder bound :: outside, outer⟩, rest⟩ :=
    alone.within
  have same := (begun.trans inBody).unique reached rfl
  simp only [Configuration.mk.injEq, State.mk.injEq, Mode.operator.injEq,
    List.append_cancel_right_eq, and_true] at same
  obtain ⟨rfl, rfl⟩ := same
  exact alone

/-- The bodies that the reader closes are the longest. -/
theorem endsWhereStuck_longestBody : EndsWhereStuck options (LongestBody options) first := by
  intro binder bound outside outer body deeper last rest term begun reached derives stuck
  have alone := follows_body begun reached derives.any
  intro other otherTerm derivesOther
  obtain ⟨_, _, further⟩ := exists_follows_of_derives derivesOther
  rcases alone.total further with fromHere | toHere
  · obtain same | ⟨next, step, _⟩ := Relation.ReflTransGen.cases_head fromHere
    · cases same
      exact Nat.le_refl _
    · exact (stuck next step).elim
  · exact toHere.length_ahead_le

end TypedLambda.Term.Reader
