import TypedLambda.Proofs.Exercise.Runs
import TypedLambda.Proofs.Reordering.Decision
import TypedLambda.Proofs.Reordering.Rearrangement
import TypedLambda.Proofs.Typing.TypedStep

namespace TypedLambda

/-!
# Rearranged answers

Where a renaming is to be done, an answer is accepted as one if it is the
expected term up to order and if the next step from the answer is no renaming.
Only the leftmost redex of the answer counts for that. An answer that merely
rearranges the current term is refused as long as its leftmost redex is the
one to be renamed, but where another redex has come in front of that one the
answer may pass.
-/

open Term (Rearranged)

namespace Feedback

/-- The answer has been accepted as a renaming. -/
def AcceptsRenaming (feedback : Feedback) : Prop :=
  feedback = .correct .alpha ∨ feedback = .correctUpToOrder .alpha

/-- What is not correct does not accept a renaming. -/
theorem not_acceptsRenaming_of_isCorrect_eq_false
    {feedback : Feedback}
    (wrong : feedback.isCorrect = false) :
    ¬feedback.AcceptsRenaming := by
  rintro (rfl | rfl) <;> cases wrong

/-- What comes of a comparison is about a contraction. -/
theorem not_acceptsRenaming_of_compare?
    {answer expected : Term}
    {feedback : Feedback}
    (compared : compare? answer expected = some feedback) :
    ¬feedback.AcceptsRenaming := by
  obtain ⟨_, rfl | rfl⟩ := accepts_of_compare? compared <;> simp [AcceptsRenaming]

end Feedback

namespace Exercise

section Judgement

variable {state : Exercise} {answer : Term} {next : Step} {later : List Step} {ty : Ty}

/-- What is accepted where a renaming is to be done: a renaming, or the step after it. -/
theorem acceptsRenaming_accepted?_iff
    (alpha : next.kind = .alpha) :
    (∃ feedback, accepted? answer next later = some feedback ∧ feedback.AcceptsRenaming) ↔
      answer.reorderEquivalent next.result = true ∧ needsRenaming answer = false := by
  rw [← Bool.not_eq_true', ← Bool.and_eq_true]
  unfold accepted?
  rw [alpha]
  by_cases both : (answer.reorderEquivalent next.result && !needsRenaming answer) = true
  · simp only [both, ↓reduceIte]
    split <;> simp [Feedback.AcceptsRenaming]
  · simp only [both, Bool.false_eq_true, ↓reduceIte, iff_false, not_exists, not_and]
    intro feedback accepted
    cases later with
    | nil =>
        cases accepted
    | cons beta rest =>
        exact Feedback.not_acceptsRenaming_of_compare? accepted

/-- An answer is accepted as a renaming if it is the expected term and needs no renaming itself. -/
theorem acceptsRenaming_judge_iff
    (pending : state.pending = next :: later)
    (alpha : next.kind = .alpha)
    (typed : answer.typeOf = .ok ty) :
    (state.judge answer).AcceptsRenaming ↔
      answer.reorderEquivalent next.result = true ∧ needsRenaming answer = false := by
  rw [← @acceptsRenaming_accepted?_iff answer next later alpha]
  simp only [judge, pending, typed]
  cases accepted : accepted? answer next later with
  | some feedback =>
      simp
  | none =>
      simp only [reduceCtorEq, false_and, exists_false, iff_false]
      apply Feedback.not_acceptsRenaming_of_isCorrect_eq_false
      split
      · rfl
      · split
        · rfl
        · exact (mistake_rejects answer state.current next).1

end Judgement

/-- A term whose leftmost redex is the one to be renamed, rearranged, needs a renaming too. -/
theorem needsRenaming_of_rearranged
    {current answer : Term}
    {step : Step}
    {place answerPlace : PlacedRedex}
    (stepped : current.step? = .ok (some step))
    (alpha : step.kind = .alpha)
    (found : current.leftmostRedex? = some place)
    (answerFound : answer.leftmostRedex? = some answerPlace)
    (rearranged : Rearranged place.redex.toTerm answerPlace.redex.toTerm) :
    needsRenaming answer = true := by
  obtain ⟨_, contraction, isPlace, contracted, rfl⟩ := Term.step?_cases stepped
  rw [found, Option.some.injEq] at isPlace
  subst isPlace
  obtain ⟨otherContraction, contractedToo, sameKind⟩ :=
    Redex.exists_contract_of_rearranged rearranged contracted
  have isAlpha : otherContraction.kind = .alpha := sameKind.trans alpha
  simp [needsRenaming, Term.step?, answerFound, contractedToo, isAlpha]

/--
How an answer is judged that rearranges the current term where a renaming is to
be done. It is accepted as a renaming only if the next step from it is none, so
it is not accepted if its leftmost redex is the one to be renamed, possibly
rearranged. Where occurrences carry their binders' types nothing else counts.
-/
theorem check_rearranged
    {term : Term}
    {limit : Nat}
    {initial state : Exercise}
    {requests : List Request}
    {next : Step}
    {later : List Step}
    {answer : Term}
    {ty : Ty}
    (made : ofTerm term limit = .ok initial)
    (reached : initial.performAll requests = state)
    (pending : state.pending = next :: later)
    (alpha : next.kind = .alpha)
    (typed : answer.typeOf = .ok ty)
    (rearranged : Rearranged state.current answer) :
    (∀ place answerPlace : PlacedRedex,
      state.current.leftmostRedex? = some place →
        answer.leftmostRedex? = some answerPlace →
          Rearranged place.redex.toTerm answerPlace.redex.toTerm →
            ¬(state.check answer).1.AcceptsRenaming) ∧
      ((state.check answer).1.AcceptsRenaming → needsRenaming answer = false) ∧
      (state.current.Annotated →
        ((state.check answer).1.AcceptsRenaming ↔ needsRenaming answer = false)) := by
  have stepped := step?_current made reached pending
  have accepts_iff := acceptsRenaming_judge_iff pending alpha typed
  have needsNot (accepted : (state.check answer).1.AcceptsRenaming) :
      needsRenaming answer = false :=
    (accepts_iff.mp accepted).2
  refine ⟨?_, needsNot, ?_⟩
  · intro place answerPlace found answerFound redexes accepted
    have needs := needsRenaming_of_rearranged stepped alpha found answerFound redexes
    rw [needsNot accepted] at needs
    cases needs
  · intro annotated
    have renamed := Term.AnnotatedIn.alphaEq_of_alpha annotated stepped alpha
    have reordered : Term.Reordered answer next.result :=
      rearranged.symm.reordered.trans (.alpha renamed)
    rw [reordered.reorderEquivalent_eq_true, eq_self_iff_true, true_and] at accepts_iff
    exact accepts_iff

/-- The formula P(t). -/
def holdsOf (operand : Term) : Term :=
  .app (.const ⟨"P", .predicate .entity⟩) operand

/-- The redex (λx.∃u.R(x,u) ∧ P(u))(y) with the given name for u. -/
def quantifiedAtY (inner : String) : Redex where
  bound := ⟨"x", .entity⟩
  body :=
    .bind .existential ⟨inner, .entity⟩
      (.connect .conjunction (related "x" inner) (holdsOf (.var ⟨inner, .entity⟩)))
  argument := .var ⟨"y", .entity⟩

/-- The redex (λx.∃y.P(y) ∧ R(x,y))(y). -/
def exchangedAtY : Redex where
  bound := ⟨"x", .entity⟩
  body :=
    .bind .existential ⟨"y", .entity⟩
      (.connect .conjunction (holdsOf (.var ⟨"y", .entity⟩)) (related "x" "y"))
  argument := .var ⟨"y", .entity⟩

/-- The redex (λx.P(x))(a). -/
def holdsAtA : Redex where
  bound := ⟨"x", .entity⟩
  body := holdsOf (.var ⟨"x", .entity⟩)
  argument := .const ⟨"a", .entity⟩

/-- A conjunction of two redexes. -/
def redexPair (first second : Redex) : Term :=
  .connect .conjunction first.toTerm second.toTerm

/-- Where the first one is. -/
def firstOfPair (first second : Redex) : PlacedRedex :=
  ⟨[.connectLeft .conjunction second.toTerm], first⟩

/-- What becomes of the redex that binds y' if it is contracted. -/
def quantified : Term :=
  .bind .existential ⟨"y'", .entity⟩
    (.connect .conjunction (related "y" "y'") (holdsOf (.var ⟨"y'", .entity⟩)))

theorem leftmostRedex?_redexPair {first second : Redex} :
    (redexPair first second).leftmostRedex? = some (firstOfPair first second) :=
  rfl

theorem captures_quantifiedAtY : (quantifiedAtY "y").Captures := by
  simp [quantifiedAtY, Redex.Captures, holdsOf, related, Term.captures_bind_iff, Term.hasFree,
    Term.anyHasFree]

theorem not_captures_quantifiedAtY : ¬(quantifiedAtY "y'").Captures := by
  simp [quantifiedAtY, Redex.Captures, holdsOf, related, Term.captures_bind_iff,
    Term.captures_connect_iff, Term.captures_app_iff, Term.captures_tuple_iff, Term.hasFree]

theorem not_captures_holdsAtA : ¬holdsAtA.Captures := by
  simp [holdsAtA, holdsOf, Redex.Captures, Term.captures_app_iff]

theorem typed_quantifiedAtY : Term.Typed .empty (quantifiedAtY "y").toTerm .truth where
  monomorphic := by decide
  annotated := by
    simp [quantifiedAtY, holdsOf, related, Redex.toTerm, Redex.function, Term.AnnotatedIn,
      Scope.empty]
  hasType := by
    simp [quantifiedAtY, holdsOf, related, Redex.toTerm, Redex.function,
      Term.binderRule_lambda_iff, Term.binderRule_existential_iff, Ty.predicate]

theorem typed_holdsAtA : Term.Typed .empty holdsAtA.toTerm .truth where
  monomorphic := by decide
  annotated := by
    simp [holdsOf, holdsAtA, Redex.toTerm, Redex.function, Term.AnnotatedIn]
  hasType := by
    simp [holdsOf, holdsAtA, Redex.toTerm, Redex.function, Term.binderRule_lambda_iff,
      Ty.predicate]

theorem typed_redexPair
    {first second : Redex}
    (typedFirst : Term.Typed .empty first.toTerm .truth)
    (typedSecond : Term.Typed .empty second.toTerm .truth) :
    Term.Typed .empty (redexPair first second) .truth where
  monomorphic :=
    Term.monomorphic_connect.mpr ⟨typedFirst.monomorphic, typedSecond.monomorphic⟩
  annotated := ⟨typedFirst.annotated, typedSecond.annotated⟩
  hasType := .connect typedFirst.hasType typedSecond.hasType

/-- What becomes of the pair if both redexes are contracted. -/
def contractedPair : Term :=
  .connect .conjunction quantified (holdsOf (.const ⟨"a", .entity⟩))

/-- The derivation renames in the first redex, contracts it and then contracts the second one. -/
theorem derivation_redexPair :
    (redexPair (quantifiedAtY "y") holdsAtA).derivation 3 =
      .ok [⟨.alpha, redexPair (quantifiedAtY "y'") holdsAtA⟩,
        ⟨.beta, .connect .conjunction quantified holdsAtA.toTerm⟩,
        ⟨.beta, contractedPair⟩] := by
  have typed := typed_redexPair typed_quantifiedAtY typed_holdsAtA
  have renamed :
      (redexPair (quantifiedAtY "y") holdsAtA).step? =
        .ok (some ⟨.alpha, redexPair (quantifiedAtY "y'") holdsAtA⟩) := by
    have apart : (quantifiedAtY "y").renamed = quantifiedAtY "y'" := by
      decide +kernel
    have stepped := typed.step?_of_captures leftmostRedex?_redexPair captures_quantifiedAtY
    rw [firstOfPair, apart] at stepped
    exact stepped
  have typedRenamed := typed.converts ⟨.alpha, renamed⟩
  have contracted :
      (redexPair (quantifiedAtY "y'") holdsAtA).step? =
        .ok (some ⟨.beta, .connect .conjunction quantified holdsAtA.toTerm⟩) :=
    typedRenamed.step?_of_not_captures leftmostRedex?_redexPair not_captures_quantifiedAtY
  have typedContracted := typedRenamed.converts ⟨.beta, contracted⟩
  have secondLeft :
      (Term.connect .conjunction quantified holdsAtA.toTerm).leftmostRedex? =
        some ⟨[.connectRight .conjunction quantified], holdsAtA⟩ := rfl
  have contractedToo :
      (Term.connect .conjunction quantified holdsAtA.toTerm).step? =
        .ok (some ⟨.beta, contractedPair⟩) :=
    typedContracted.step?_of_not_captures secondLeft not_captures_holdsAtA
  have noStep : contractedPair.step? = .ok none := rfl
  exact Term.derivationWithin_eq_ok_iff.mpr
    ⟨by decide, _, .step renamed (.step contracted (.step contractedToo (.done _))),
      Term.step?_eq_ok_none_iff.mp noStep⟩

/-- The derivation begins with the renaming. -/
theorem exists_derivation_redexPair :
    ∃ later,
      (redexPair (quantifiedAtY "y") holdsAtA).derivation 3 =
        .ok (⟨.alpha, redexPair (quantifiedAtY "y'") holdsAtA⟩ :: later) :=
  ⟨_, derivation_redexPair⟩

/--
In the exercise of reducing (λx.∃y.R(x,y) ∧ P(y))(y) ∧ (λx.P(x))(a) the answer
with R(x,y) and P(y) exchanged is not accepted as the renaming, since it needs
the renaming itself.
-/
theorem check_rearranged_insideRedex :
    ∃ initial answer,
      ofTerm (redexPair (quantifiedAtY "y") holdsAtA) 3 = .ok initial ∧
        Rearranged initial.current answer ∧
        ¬(initial.check answer).1.AcceptsRenaming ∧
        needsRenaming answer = true := by
  obtain ⟨later, derived⟩ := exists_derivation_redexPair
  have made := ofTerm_eq_ok_iff.mpr ⟨_, derived, rfl⟩
  have unasked :
      performAll
          ⟨redexPair (quantifiedAtY "y") holdsAtA, [],
            ⟨.alpha, redexPair (quantifiedAtY "y'") holdsAtA⟩ :: later, .standard⟩ [] =
        ⟨redexPair (quantifiedAtY "y") holdsAtA, [],
          ⟨.alpha, redexPair (quantifiedAtY "y'") holdsAtA⟩ :: later, .standard⟩ := rfl
  have typed := typed_redexPair typed_quantifiedAtY typed_holdsAtA
  have redexes : Rearranged (quantifiedAtY "y").toTerm exchangedAtY.toTerm :=
    .frame (.function (.var ⟨"y", .entity⟩)) (.frame (.bind .lambda ⟨"x", .entity⟩)
      (.frame (.bind .existential ⟨"y", .entity⟩)
        (.commute .conjunction (related "x" "y") (holdsOf (.var ⟨"y", .entity⟩)) (by decide))))
  have rearranged :
      Rearranged (redexPair (quantifiedAtY "y") holdsAtA)
        (redexPair exchangedAtY holdsAtA) :=
    .frame (.connectLeft .conjunction holdsAtA.toTerm) redexes
  have answerTyped := (rearranged.sameType .truth).mp
    ((Term.typeOf_eq_ok_iff typed.monomorphic).mpr typed.hasType)
  obtain ⟨refused, _, accepts_iff⟩ :=
    check_rearranged made unasked rfl rfl answerTyped rearranged
  have notAccepted := refused _ _ leftmostRedex?_redexPair leftmostRedex?_redexPair redexes
  refine ⟨_, _, made, rearranged, notAccepted, ?_⟩
  rwa [accepts_iff typed.annotated, Bool.not_eq_false] at notAccepted

/--
In the same exercise the answer with the two redexes exchanged is accepted as
the renaming, though every name in it is as before.
-/
theorem exists_rearranged_acceptsRenaming :
    ∃ initial answer,
      ofTerm (redexPair (quantifiedAtY "y") holdsAtA) 3 = .ok initial ∧
        initial.pending.head?.map Step.kind = some .alpha ∧
        answer.typeOf = .ok .truth ∧
        Rearranged initial.current answer ∧
        (initial.check answer).1.AcceptsRenaming := by
  obtain ⟨later, derived⟩ := exists_derivation_redexPair
  have made := ofTerm_eq_ok_iff.mpr ⟨_, derived, rfl⟩
  have rearranged :
      Rearranged (redexPair (quantifiedAtY "y") holdsAtA)
        (redexPair holdsAtA (quantifiedAtY "y")) :=
    .commute .conjunction _ _ (by decide)
  have typed := typed_redexPair typed_holdsAtA typed_quantifiedAtY
  have answerTyped := (Term.typeOf_eq_ok_iff typed.monomorphic).mpr typed.hasType
  have contracted :=
    typed.step?_of_not_captures leftmostRedex?_redexPair not_captures_holdsAtA
  have needsNot : needsRenaming (redexPair holdsAtA (quantifiedAtY "y")) = false := by
    simp [needsRenaming, contracted]
  have same :
      (redexPair holdsAtA (quantifiedAtY "y")).reorderEquivalent
        (redexPair (quantifiedAtY "y'") holdsAtA) = true := by
    decide +kernel
  refine ⟨_, _, made, rfl, answerTyped, rearranged, ?_⟩
  rw [check, acceptsRenaming_judge_iff rfl rfl answerTyped]
  exact ⟨same, needsNot⟩

end Exercise

end TypedLambda
