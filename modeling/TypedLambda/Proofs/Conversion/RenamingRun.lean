import Mathlib.Logic.Relation
import TypedLambda.Conversion.Contraction
import TypedLambda.Proofs.Conversion.Capture

namespace TypedLambda

/-!
# Renaming binder by binder

`avoidCapture` walks through a term and renames capturing binders as it goes.
Seen from outside it is a run of single renamings, each of one binder at some
place, and whatever such a renaming preserves the whole run preserves.
-/

open Relation (ReflTransGen)

namespace Term

/-- A term and the renamings that it has undergone, the last one first. -/
abbrev Renamed := Term × List Renaming

/-- The name that a binder gets which captures a variable of that name. -/
def nextName (used : List String) (done : List Renaming) (name : String) : String :=
  freshName (used ++ done.map Renaming.new) name

/-- One capturing binder gets a name that has not been used. -/
inductive RenameStep
    (used : List String)
    (name : String)
    (argument : Term) :
    Renamed → Renamed → Prop where
  | rename
      (context : Context)
      (binder : Binder)
      (bound : Identifier)
      (body : Term)
      (done : List Renaming)
      (different : bound.name ≠ name)
      (captured : argument.hasFree bound.name = true)
      (below : body.hasFree name = true) :
      RenameStep used name argument
        (context.fill (.bind binder bound body), done)
        (context.fill
          (.bind binder ⟨nextName used done bound.name, bound.ty⟩
            (substitute bound.name
              (.var ⟨nextName used done bound.name, bound.ty⟩) body)),
          ⟨binder, bound.name, nextName used done bound.name⟩ :: done)

/-- Capturing binders renamed one after the other. -/
abbrev RenameRun
    (used : List String)
    (name : String)
    (argument : Term) :
    Renamed → Renamed → Prop :=
  ReflTransGen (RenameStep used name argument)

variable {used : List String} {name : String} {argument : Term}

/-- A renaming inside a part is one inside the whole. -/
theorem RenameRun.frame
    (frame : Frame)
    {first last : Renamed}
    (run : RenameRun used name argument first last) :
    RenameRun used name argument
      (frame.fill first.1, first.2) (frame.fill last.1, last.2) := by
  induction run with
  | refl =>
      exact .refl
  | tail _ step inductionHypothesis =>
      obtain ⟨context, binder, bound, body, done,
        different, captured, below⟩ := step
      exact inductionHypothesis.tail
        (.rename (frame :: context) binder bound body done
          different captured below)

/-- Two parts are renamed one after the other. -/
theorem RenameRun.both
    (leftFrame : Term → Frame)
    (rightFrame : Term → Frame)
    (sameShape :
      ∀ left right, (leftFrame right).fill left = (rightFrame left).fill right)
    {left right : Term}
    {done : List Renaming}
    {middle last : Renamed}
    (leftRun : RenameRun used name argument (left, done) middle)
    (rightRun : RenameRun used name argument (right, middle.2) last) :
    RenameRun used name argument
      ((leftFrame right).fill left, done)
      ((rightFrame middle.1).fill last.1, last.2) := by
  have first := leftRun.frame (leftFrame right)
  have second := rightRun.frame (rightFrame middle.1)
  rw [← sameShape] at second
  exact first.trans second

/-- The walk through the items of a tuple is a run of renamings, if it is one in each item. -/
theorem renameRun_avoidCaptureInAll
    {items : List Term}
    (inItem :
      ∀ item ∈ items, ∀ done,
        RenameRun used name argument (item, done)
          (avoidCapture used name argument item done))
    (before : List Term)
    (done : List Renaming) :
    RenameRun used name argument
      (.tuple (before ++ items), done)
      (.tuple (before ++ (avoidCaptureInAll used name argument items done).1),
        (avoidCaptureInAll used name argument items done).2) := by
  induction items generalizing before done with
  | nil =>
      exact .refl
  | cons head tail inductionHypothesis =>
      have first :=
        (inItem head (by simp) done).frame (.item before tail)
      have second :=
        inductionHypothesis (fun item member => inItem item (by simp [member]))
          (before ++ [(avoidCapture used name argument head done).1])
          (avoidCapture used name argument head done).2
      simp only [List.append_assoc, List.singleton_append] at second
      exact first.trans second

/-- The walk through a term is a run of renamings. -/
theorem renameRun_avoidCapture
    (used : List String)
    (name : String)
    (argument term : Term)
    (done : List Renaming) :
    RenameRun used name argument (term, done)
      (avoidCapture used name argument term done) := by
  induction term generalizing done with
  | var identifier =>
      exact .refl
  | const identifier =>
      exact .refl
  | bind binder bound body inductionHypothesis =>
      by_cases same : bound.name = name
      · simp only [avoidCapture, same, ↓reduceIte]
        exact .refl
      · have inBody := (inductionHypothesis done).frame (.bind binder bound)
        simp only [avoidCapture, same, ↓reduceIte]
        split
        · next capturing =>
            rw [Bool.and_eq_true] at capturing
            exact inBody.tail
              (.rename [] binder bound _ _ same capturing.1 capturing.2)
        · exact inBody
  | app function operand functionHypothesis operandHypothesis =>
      exact .both .function .argument (fun _ _ => rfl)
        (functionHypothesis done) (operandHypothesis _)
  | tuple items inductionHypothesis =>
      exact renameRun_avoidCaptureInAll inductionHypothesis [] done
  | neg operand inductionHypothesis =>
      exact (inductionHypothesis done).frame .neg
  | connect connective left right leftHypothesis rightHypothesis =>
      exact .both (.connectLeft connective) (.connectRight connective)
        (fun _ _ => rfl) (leftHypothesis done) (rightHypothesis _)
  | equal left right leftHypothesis rightHypothesis =>
      exact .both .equalLeft .equalRight (fun _ _ => rfl)
        (leftHypothesis done) (rightHypothesis _)
  | relate relation left right leftHypothesis rightHypothesis =>
      exact .both (.relateLeft relation) (.relateRight relation)
        (fun _ _ => rfl) (leftHypothesis done) (rightHypothesis _)

/-- No renaming is forgotten on the way. -/
theorem RenameRun.length_le
    {first last : Renamed}
    (run : RenameRun used name argument first last) :
    first.2.length ≤ last.2.length := by
  induction run with
  | refl =>
      exact Nat.le_refl _
  | tail _ step inductionHypothesis =>
      obtain ⟨⟩ := step
      exact Nat.le_succ_of_le inductionHypothesis

/-- A run that adds no renaming changes nothing. -/
theorem RenameRun.eq_of_length_le
    {first last : Renamed}
    (run : RenameRun used name argument first last)
    (asShort : last.2.length ≤ first.2.length) :
    last = first := by
  cases run with
  | refl =>
      rfl
  | tail part step =>
      have bound := RenameRun.length_le part
      obtain ⟨⟩ := step
      simp only [List.length_cons] at asShort bound
      omega

/-- Two parts stay as they are if the one does and then the other. -/
theorem avoidCapture_both_eq_self_iff
    {node : Term → Term → Term}
    (injective :
      ∀ {left right otherLeft otherRight},
        node left right = node otherLeft otherRight →
          left = otherLeft ∧ right = otherRight)
    {left right : Term}
    {done : List Renaming}
    {middle last : Renamed}
    (isMiddle : middle = avoidCapture used name argument left done)
    (isLast : last = avoidCapture used name argument right middle.2) :
    (node middle.1 last.1, last.2) = (node left right, done) ↔
      avoidCapture used name argument left done = (left, done) ∧
        avoidCapture used name argument right done = (right, done) := by
  have leftRun := renameRun_avoidCapture used name argument left done
  have rightRun := renameRun_avoidCapture used name argument right middle.2
  rw [← isMiddle] at leftRun ⊢
  rw [← isLast] at rightRun
  constructor
  · intro same
    obtain ⟨nodes, renamings⟩ := Prod.mk.inj same
    obtain ⟨lefts, rights⟩ := injective nodes
    have noLonger : middle.2.length ≤ done.length :=
      renamings ▸ rightRun.length_le
    have unchanged := leftRun.eq_of_length_le noLonger
    refine ⟨unchanged, ?_⟩
    rw [unchanged] at isLast
    rw [← isLast]
    exact Prod.ext rights renamings
  · rintro ⟨unchanged, alsoUnchanged⟩
    rw [unchanged] at isLast ⊢
    rw [isLast, alsoUnchanged]

/-- A list of terms stays as it is if every term in it does. -/
theorem avoidCaptureInAll_eq_self_iff
    (used : List String)
    (name : String)
    (argument : Term)
    (items : List Term)
    (done : List Renaming) :
    avoidCaptureInAll used name argument items done = (items, done) ↔
      ∀ item ∈ items,
        avoidCapture used name argument item done = (item, done) := by
  induction items generalizing done with
  | nil =>
      simp [avoidCaptureInAll]
  | cons head tail inductionHypothesis =>
      have headRun := renameRun_avoidCapture used name argument head done
      have tailRun :=
        renameRun_avoidCaptureInAll
          (fun item (_ : item ∈ tail) done =>
            renameRun_avoidCapture used name argument item done)
          [] (avoidCapture used name argument head done).2
      rw [List.forall_mem_cons, ← inductionHypothesis done]
      constructor
      · intro same
        simp only [avoidCaptureInAll, Prod.mk.injEq, List.cons.injEq] at same
        obtain ⟨⟨_, tails⟩, renamings⟩ := same
        have noLonger := tailRun.length_le
        simp only [renamings] at noLonger
        have unchanged := headRun.eq_of_length_le noLonger
        rw [unchanged] at tails renamings
        exact ⟨unchanged, Prod.ext tails renamings⟩
      · rintro ⟨unchanged, alsoUnchanged⟩
        simp [avoidCaptureInAll, unchanged, alsoUnchanged]

/-- The walk renames nothing exactly if nothing would be captured. -/
theorem avoidCapture_eq_self_iff
    (used : List String)
    (name : String)
    (argument term : Term)
    (done : List Renaming) :
    avoidCapture used name argument term done = (term, done) ↔
      ¬Captures name argument term := by
  induction term generalizing done with
  | var identifier =>
      simp [avoidCapture, captures_iff_children, children]
  | const identifier =>
      simp [avoidCapture, captures_iff_children, children]
  | bind binder bound body inductionHypothesis =>
      rw [captures_bind_iff]
      by_cases same : bound.name = name
      · simp [avoidCapture, same]
      · by_cases inBody : Captures name argument body
        · have run := renameRun_avoidCapture used name argument body done
          -- A capture below is recorded, and no record is ever taken back.
          have longer :
              done.length <
                (avoidCapture used name argument body done).2.length := by
            apply Nat.lt_of_not_le
            intro asShort
            exact (inductionHypothesis done).mp
              (run.eq_of_length_le asShort) inBody
          have changed :
              avoidCapture used name argument (.bind binder bound body) done ≠
                (.bind binder bound body, done) := by
            intro unchanged
            have lengths := congrArg (fun renamed => renamed.2.length) unchanged
            simp only [avoidCapture, same, ↓reduceIte] at lengths
            split at lengths <;> simp at lengths <;> omega
          simp [same, inBody, changed]
        · have unchanged := (inductionHypothesis done).mpr inBody
          by_cases capturing :
              argument.hasFree bound.name = true ∧ body.hasFree name = true
          · simp [avoidCapture, same, unchanged, inBody, capturing]
          · have notBoth :
                ¬(body.hasFree name = true ∧
                  argument.hasFree bound.name = true) :=
              fun both => capturing both.symm
            simp [avoidCapture, same, unchanged, inBody, capturing, notBoth]
  | tuple items inductionHypothesis =>
      simp only [captures_tuple_iff, not_exists, not_and]
      rw [← forall₂_congr fun item member => inductionHypothesis item member done,
        ← avoidCaptureInAll_eq_self_iff]
      simp [avoidCapture, Prod.ext_iff]
  | neg operand inductionHypothesis =>
      rw [captures_neg_iff, ← inductionHypothesis done]
      simp [avoidCapture, Prod.ext_iff]
  | app left right leftHypothesis rightHypothesis
  | connect _ left right leftHypothesis rightHypothesis
  | equal left right leftHypothesis rightHypothesis
  | relate _ left right leftHypothesis rightHypothesis =>
      simp only [captures_app_iff, captures_connect_iff, captures_equal_iff,
        captures_relate_iff, not_or]
      rw [← leftHypothesis done, ← rightHypothesis done]
      exact avoidCapture_both_eq_self_iff (fun same => by simpa using same)
        rfl rfl

/--
What holds at the end of a run: whatever giving a binder a name that does not
occur below it preserves. The names in use are to include all that occur.
-/
theorem RenameRun.invariant
    (holds : Term → Prop)
    (preserved :
      ∀ (context : Context) (binder : Binder) (bound : Identifier)
        (body : Term) (new : String),
        new ∉ body.nameOccurrences →
          holds (context.fill (.bind binder bound body)) →
            holds (context.fill (.bind binder ⟨new, bound.ty⟩
              (substitute bound.name (.var ⟨new, bound.ty⟩) body))))
    {first last : Renamed}
    (run : RenameRun used name argument first last)
    (known :
      ∀ other ∈ first.1.nameOccurrences,
        other ∈ used ++ first.2.map Renaming.new)
    (initially : holds first.1) :
    holds last.1 := by
  -- What occurs at the end occurred before or is one of the new names.
  suffices stronger :
      holds last.1 ∧
        ∀ other ∈ last.1.nameOccurrences,
          other ∈ used ++ last.2.map Renaming.new from stronger.1
  induction run with
  | refl =>
      exact ⟨initially, known⟩
  | tail _ step inductionHypothesis =>
      obtain ⟨context, binder, bound, body, done, _, _, _⟩ := step
      obtain ⟨holdsBefore, knownBefore⟩ := inductionHypothesis
      have fresh := freshName_notMem (used ++ done.map Renaming.new) bound.name
      rw [← nextName] at fresh
      generalize nextName used done bound.name = new at fresh ⊢
      obtain ⟨outer, inContext⟩ := Context.exists_outerNames context
      simp only [inContext, nameOccurrences, List.mem_cons] at knownBefore ⊢
      have freshInBody : new ∉ body.nameOccurrences := fun member =>
        fresh (knownBefore new (.inr (.inr member)))
      refine ⟨preserved context binder bound body new freshInBody holdsBefore, ?_⟩
      intro other occurs
      rw [List.map_cons]
      rcases occurs with inOuter | isNew | inBody
      · have before := knownBefore other (.inl inOuter)
        grind
      · grind
      · rcases mem_nameOccurrences_substitute_var inBody with isNew | wasInBody
        · grind
        · have before := knownBefore other (.inr (.inr wasInBody))
          grind

end Term

namespace Redex

/-- What renaming one binder preserves holds of a body with its capturing binders renamed. -/
theorem renamedBody_invariant
    (redex : Redex)
    (holds : Term → Prop)
    (preserved :
      ∀ (context : Context) (binder : Binder) (bound : Identifier)
        (body : Term) (new : String),
        new ∉ body.nameOccurrences →
          holds (context.fill (.bind binder bound body)) →
            holds (context.fill (.bind binder ⟨new, bound.ty⟩
              (Term.substitute bound.name (.var ⟨new, bound.ty⟩) body))))
    (initially : holds redex.body) :
    holds redex.renamedBody.1 := by
  have run :=
    Term.renameRun_avoidCapture redex.usedNames redex.bound.name
      redex.argument redex.body []
  refine run.invariant holds preserved (fun other occurs => ?_) initially
  rw [List.map_nil, List.append_nil, usedNames]
  exact List.mem_cons_of_mem _ (List.mem_append_left _ occurs)

/-- The renamings of the body are missing exactly if there is nothing to capture. -/
theorem renamedBody_renamings_eq_nil_iff {redex : Redex} :
    redex.renamedBody.2 = [] ↔
      ¬Term.Captures redex.bound.name redex.argument redex.body := by
  have unchanged :=
    Term.avoidCapture_eq_self_iff redex.usedNames redex.bound.name
      redex.argument redex.body []
  rw [← unchanged, renamedBody]
  constructor
  · intro missing
    have run :=
      Term.renameRun_avoidCapture redex.usedNames redex.bound.name
        redex.argument redex.body []
    exact run.eq_of_length_le (by simp [missing])
  · intro same
    rw [same]

end Redex

end TypedLambda
