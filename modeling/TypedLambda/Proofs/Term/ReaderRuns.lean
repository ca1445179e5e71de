import Mathlib.Logic.Relation
import TypedLambda.Proofs.Term.ReaderSteps

namespace TypedLambda.Term.Reader

/-!
# Runs of the reader

A run that succeeds is a chain of steps to the end of the tokens. Every step
takes a token and there is at most one from each configuration, so two
configurations that follow on the same one are the same if the same tokens are
ahead.
-/

open Grammar

variable {options : ReadingOptions}
variable {first second middle start : Configuration}

/-- A token is read in every step. -/
theorem Step.exists_ahead_eq (step : Step options first second) :
    ∃ token, first.ahead = token :: second.ahead := by
  cases step <;> exact ⟨_, rfl⟩

theorem Step.length_ahead (step : Step options first second) :
    first.ahead.length = second.ahead.length + 1 := by
  obtain ⟨token, isAhead⟩ := step.exists_ahead_eq
  rw [isAhead, List.length_cons]

/-- At most one step leads on. -/
theorem Step.unique
    {left right : Configuration}
    (leftStep : Step options start left)
    (rightStep : Step options start right) :
    left = right := by
  obtain ⟨state, ahead⟩ := start
  obtain ⟨leftState, leftAhead⟩ := left
  obtain ⟨rightState, rightAhead⟩ := right
  obtain ⟨token, isLeft⟩ := leftStep.exists_ahead_eq
  obtain ⟨other, isRight⟩ := rightStep.exists_ahead_eq
  cases isLeft
  cases isRight
  -- The reader is a function of lexemes, so the tokens are given some position.
  have spelled : (leftAhead.map fun token => Lexeme.mk token 0).map Lexeme.token = leftAhead := by
    rw [List.map_map]
    exact List.map_id _
  rw [← spelled] at leftStep rightStep
  have leftOk :
      state.step options ⟨token, 0⟩ (leftAhead.map fun token => ⟨token, 0⟩) =
        .ok leftState :=
    step_eq_ok_iff.mpr leftStep
  rw [step_eq_ok_iff.mpr rightStep] at leftOk
  cases leftOk
  rfl

/-- A chain of steps leads from one configuration to another. -/
def Follows (options : ReadingOptions) : Configuration → Configuration → Prop :=
  Relation.ReflTransGen (Step options)

theorem Follows.refl : Follows options first first :=
  Relation.ReflTransGen.refl

theorem Follows.tail
    (follows : Follows options first middle)
    (step : Step options middle second) :
    Follows options first second :=
  Relation.ReflTransGen.tail follows step

theorem Follows.head
    (step : Step options first middle)
    (follows : Follows options middle second) :
    Follows options first second :=
  Relation.ReflTransGen.head step follows

theorem Follows.trans
    (before : Follows options first middle)
    (behind : Follows options middle second) :
    Follows options first second :=
  Relation.ReflTransGen.trans before behind

theorem Follows.length_ahead_le (follows : Follows options first second) :
    second.ahead.length ≤ first.ahead.length := by
  induction follows with
  | refl =>
      exact Nat.le_refl _
  | tail _ step inductionHypothesis =>
      have shorter := step.length_ahead
      omega

/-- Of two configurations that follow, one follows on the other. -/
theorem Follows.total
    {left right : Configuration}
    (leftFollows : Follows options start left)
    (rightFollows : Follows options start right) :
    Follows options left right ∨ Follows options right left :=
  Relation.ReflTransGen.total_of_right_unique (fun _ _ _ => Step.unique)
    leftFollows rightFollows

theorem Follows.eq_of_length_ahead_le
    (follows : Follows options first second)
    (same : first.ahead.length ≤ second.ahead.length) :
    first = second := by
  obtain rfl | ⟨middle, step, behind⟩ := Relation.ReflTransGen.cases_head follows
  · rfl
  · have shorter := step.length_ahead
    have further := Follows.length_ahead_le behind
    omega

/-- What follows is determined by the tokens ahead. -/
theorem Follows.unique
    {left right : Configuration}
    (leftFollows : Follows options start left)
    (rightFollows : Follows options start right)
    (same : left.ahead = right.ahead) :
    left = right := by
  rcases leftFollows.total rightFollows with further | further
  · exact further.eq_of_length_ahead_le (Nat.le_of_eq (congrArg List.length same))
  · exact (further.eq_of_length_ahead_le
      (Nat.le_of_eq (congrArg List.length same.symm))).symm

/-- A run goes on from what follows in steps. -/
theorem run_eq_of_follows
    {finish : Nat}
    {state next : State}
    {lexemes rest : List Lexeme}
    (follows :
      Follows options ⟨state, lexemes.map Lexeme.token⟩ ⟨next, rest.map Lexeme.token⟩)
    (behind : rest <:+ lexemes) :
    run options finish state lexemes = run options finish next rest := by
  induction lexemes generalizing state with
  | nil =>
      obtain rfl := List.suffix_nil.mp behind
      cases follows.eq_of_length_ahead_le (Nat.le_refl _)
      rfl
  | cons lexeme lexemes inductionHypothesis =>
      obtain same | ⟨⟨middle, ahead⟩, step, further⟩ :=
        Relation.ReflTransGen.cases_head follows
      · have sameLength := congrArg (fun configuration => configuration.ahead.length) same
        simp only [List.length_map] at sameLength
        obtain rfl := behind.eq_of_length sameLength.symm
        cases same
        rfl
      · obtain ⟨token, isAhead⟩ := step.exists_ahead_eq
        cases isAhead
        have shorter := Follows.length_ahead_le further
        simp only [List.length_map] at shorter
        rw [run, step_eq_ok_iff.mpr step]
        rcases List.suffix_cons_iff.mp behind with rfl | inRest
        · exact (Nat.not_succ_le_self _ shorter).elim
        · exact inductionHypothesis further inRest

/-- A run succeeds exactly if steps lead to the end and leave no list or group open there. -/
theorem run_eq_ok_iff
    {finish : Nat}
    {state : State}
    {lexemes : List Lexeme}
    {term : Term} :
    run options finish state lexemes = .ok term ↔
      ∃ last pending,
        Follows options ⟨state, lexemes.map Lexeme.token⟩ ⟨⟨.operator last, pending, []⟩, []⟩ ∧
          completeAll last pending = term := by
  induction lexemes generalizing state with
  | nil =>
      rw [run]
      constructor
      · intro finished
        obtain ⟨mode, pending, outer⟩ := state
        unfold State.finish at finished
        split at finished
        · cases finished
        · cases finished
        · cases finished
        · cases finished
        · next last isMode isOuter =>
            cases isMode
            cases isOuter
            cases finished
            exact ⟨last, pending, .refl, rfl⟩
      · rintro ⟨last, pending, follows, rfl⟩
        have same := follows.eq_of_length_ahead_le (Nat.zero_le _)
        cases same
        rfl
  | cons lexeme rest inductionHypothesis =>
      rw [run]
      cases stepped : state.step options lexeme rest with
      | ok next =>
          have step := step_eq_ok_iff.mp stepped
          rw [inductionHypothesis]
          constructor
          · rintro ⟨last, pending, follows, isTerm⟩
            exact ⟨last, pending, .head step follows, isTerm⟩
          · rintro ⟨last, pending, follows, isTerm⟩
            obtain same | ⟨middle, first, further⟩ :=
              Relation.ReflTransGen.cases_head follows
            · cases same
            · rw [step.unique first]
              exact ⟨last, pending, further, isTerm⟩
      | error mistake =>
          constructor
          · intro impossible
            cases impossible
          · rintro ⟨last, pending, follows, _⟩
            obtain same | ⟨⟨next, ahead⟩, first, further⟩ :=
              Relation.ReflTransGen.cases_head follows
            · cases same
            · obtain ⟨token, isAhead⟩ := first.exists_ahead_eq
              cases isAhead
              rw [step_eq_ok_iff.mpr first] at stepped
              cases stepped

section Heads

variable {binder : Binder} {names : List String} {bound : List Identifier}
variable {tokens rest : List Token} {pending : List Pending} {outer : List Level}

theorem follows_namesAndDot
    {earlier : List Identifier}
    (binds : List.Forall₂ (Binds options) names bound)
    (nonempty : earlier ++ bound ≠ []) :
    Follows options
      ⟨⟨.binding binder earlier, pending, outer⟩, namesAndDot names rest⟩
      ⟨⟨.operand, .binder binder (earlier ++ bound) :: pending, outer⟩, rest⟩ := by
  induction binds generalizing earlier with
  | nil =>
      rw [List.append_nil] at nonempty ⊢
      exact .head (.dot nonempty) .refl
  | @cons _ first _ more bindsFirst _ inductionHypothesis =>
      have isSame : earlier ++ first :: more = earlier ++ [first] ++ more := by simp
      rw [isSame] at nonempty ⊢
      exact .head (.bound bindsFirst) (inductionHypothesis nonempty)

/-- A binder and the names that it binds are read before the body. -/
theorem follows_heads
    (heads : Heads options binder names tokens rest)
    (binds : List.Forall₂ (Binds options) names bound) :
    Follows options ⟨⟨.operand, pending, outer⟩, tokens⟩
      ⟨⟨.operand, .binder binder bound :: pending, outer⟩, rest⟩ := by
  cases heads with
  | symbol nonempty =>
      refine .head .symbol (follows_namesAndDot binds ?_)
      rintro rfl
      exact nonempty (List.forall₂_nil_right_iff.mp binds)
  | letter stands =>
      cases stands with
      | alone allowed spelled stands nonempty =>
          refine .head (.letter (.alone allowed spelled stands nonempty) .nil)
            (follows_namesAndDot binds ?_)
          rintro rfl
          exact nonempty (List.forall₂_nil_right_iff.mp binds)
      | fused allowed spelled stands begins =>
          obtain ⟨first, more, bindsFirst, bindsMore, rfl⟩ :=
            List.forall₂_cons_left_iff.mp binds
          exact .head
            (.letter (.fused allowed spelled stands begins) (.cons bindsFirst .nil))
            (follows_namesAndDot bindsMore (List.cons_ne_nil _ _))

end Heads

end TypedLambda.Term.Reader
