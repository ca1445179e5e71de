import TypedLambda.Proofs.Conversion.StepCases
import TypedLambda.Proofs.Nameless.NamedContraction

namespace TypedLambda

/-!
# Leftmost contraction of nameless terms

Contracting the leftmost redex is a function of the nameless term. A term and
its nameless form have their leftmost redex in the same place, and contracting
it is the same thing in both as long as nothing is captured. Contractions that
go on until no redex is left therefore have one result only, and their number
is fixed too.
-/

/-- The whole term with the argument put in naively. -/
def PlacedRedex.contracted (place : PlacedRedex) : Term :=
  place.replace (Term.substitute place.redex.bound.name place.redex.argument place.redex.body)

namespace Term

namespace Nameless

/-- What an application is contracted to if it is one of an abstraction. -/
def contractRoot? : Nameless → Nameless → Option Nameless
  | .bind .lambda _ body, argument => some (body.instantiate argument)
  | _, _ => none

mutual

/-- The term with its leftmost redex contracted, if there is one. -/
def contractLeftmost? : Nameless → Option Nameless
  | .bound _ _ => none
  | .free _ => none
  | .const _ => none
  | .bind binder ty body => body.contractLeftmost?.map (.bind binder ty)
  | .app function argument =>
      (contractRoot? function argument).or
        ((function.contractLeftmost?.map (.app · argument)).or
          (argument.contractLeftmost?.map (.app function)))
  | .tuple items => (contractLeftmostAmong? items).map .tuple
  | .neg operand => operand.contractLeftmost?.map .neg
  | .connect connective left right =>
      (left.contractLeftmost?.map (.connect connective · right)).or
        (right.contractLeftmost?.map (.connect connective left))
  | .equal left right =>
      (left.contractLeftmost?.map (.equal · right)).or
        (right.contractLeftmost?.map (.equal left))
  | .relate relation left right =>
      (left.contractLeftmost?.map (.relate relation · right)).or
        (right.contractLeftmost?.map (.relate relation left))

/-- The terms of a list with the leftmost redex among them contracted. -/
def contractLeftmostAmong? : List Nameless → Option (List Nameless)
  | [] => none
  | item :: rest =>
      (item.contractLeftmost?.map (· :: rest)).or
        ((contractLeftmostAmong? rest).map (item :: ·))

end

/-- So many leftmost contractions lead from one term to another. -/
inductive LeftmostRun : Nat → Nameless → Nameless → Prop where
  | done (term : Nameless) : LeftmostRun 0 term term
  | contract
      {count : Nat}
      {term between last : Nameless}
      (contracted : term.contractLeftmost? = some between)
      (rest : LeftmostRun count between last) :
      LeftmostRun (count + 1) term last

/-- Runs that go on until no redex is left are the same. -/
theorem LeftmostRun.unique
    {count otherCount : Nat}
    {term last otherLast : Nameless}
    (run : LeftmostRun count term last)
    (otherRun : LeftmostRun otherCount term otherLast)
    (normal : last.contractLeftmost? = none)
    (otherNormal : otherLast.contractLeftmost? = none) :
    count = otherCount ∧ last = otherLast := by
  induction run generalizing otherCount with
  | done term =>
      cases otherRun with
      | done _ =>
          exact ⟨rfl, rfl⟩
      | contract contracted _ =>
          rw [normal] at contracted
          cases contracted
  | contract contracted _ inductionHypothesis =>
      cases otherRun with
      | done _ =>
          rw [otherNormal] at contracted
          cases contracted
      | contract contractedToo rest =>
          rw [contracted, Option.some.injEq] at contractedToo
          subst contractedToo
          obtain ⟨sameCount, sameLast⟩ := inductionHypothesis rest normal
          exact ⟨congrArg (· + 1) sameCount, sameLast⟩

/-- An item that is contracted is one of a list that is. -/
theorem contractLeftmostAmong?_ne_none
    {item : Nameless}
    (contracts : item.contractLeftmost? ≠ none)
    (earlier later : List Nameless) :
    contractLeftmostAmong? (earlier ++ item :: later) ≠ none := by
  induction earlier with
  | nil =>
      simp [contractLeftmostAmong?, contracts]
  | cons head tail inductionHypothesis =>
      simp [contractLeftmostAmong?, inductionHypothesis]

/-- A term that can be reduced has a leftmost redex. -/
theorem Reduces.contractLeftmost?_ne_none
    {before after : Nameless}
    (reduces : Reduces before after) :
    before.contractLeftmost? ≠ none := by
  induction reduces with
  | contract ty body argument =>
      simp [contractLeftmost?, contractRoot?]
  | item earlier later _ inductionHypothesis =>
      simp [contractLeftmost?, contractLeftmostAmong?_ne_none inductionHypothesis]
  | _ =>
      simp_all [contractLeftmost?]

end Nameless

open Nameless (contractLeftmost? contractLeftmostAmong? contractRoot?)

/-- An application is a redex exactly if its nameless form is one. -/
theorem contractRoot?_namelessIn
    (function argument : Term)
    (scope : List String) :
    contractRoot? (function.namelessIn scope) (argument.namelessIn scope) =
      (redex? function argument).map fun redex =>
        (redex.body.namelessIn (redex.bound.name :: scope)).instantiate
          (redex.argument.namelessIn scope) := by
  cases function with
  | var identifier =>
      simp only [namelessIn]
      split <;> rfl
  | bind binder bound body =>
      cases binder <;> rfl
  | _ =>
      rfl

/-- A contraction without names is the one of the redex that was found, if that captures nothing. -/
def Follows
    (scope : List String)
    (found : Option PlacedRedex)
    (contracted : Option Nameless) : Prop :=
  (∀ place, found = some place → ¬place.redex.Captures) →
    contracted = found.map fun place => place.contracted.namelessIn scope

/-- The same holds seen from one node further out. -/
theorem Follows.under
    {inner outer : List String}
    {found : Option PlacedRedex}
    {contracted : Option Nameless}
    (follows : Follows inner found contracted)
    (frame : Frame)
    {wrap : Nameless → Nameless}
    (wraps : ∀ term : Term, wrap (term.namelessIn inner) = (frame.fill term).namelessIn outer) :
    Follows outer (found.map (·.under frame)) (contracted.map wrap) := by
  intro safe
  cases found with
  | none =>
      rw [follows (by simp)]
      rfl
  | some place =>
      rw [follows fun _ found => Option.some.inj found ▸ safe (place.under frame) rfl]
      exact congrArg some (wraps place.contracted)

/-- A place on the left comes before one on the right. -/
theorem Follows.or
    {scope : List String}
    {found otherFound : Option PlacedRedex}
    {contracted otherContracted : Option Nameless}
    (follows : Follows scope found contracted)
    (otherFollows : Follows scope otherFound otherContracted) :
    Follows scope (found.or otherFound) (contracted.or otherContracted) := by
  intro safe
  cases found with
  | none =>
      rw [follows (by simp)]
      exact otherFollows safe
  | some place =>
      rw [follows safe]
      rfl

/-- The leftmost redex of a term and of its nameless form are contracted alike. -/
def ContractsAlike (term : Term) : Prop :=
  ∀ scope, Follows scope term.leftmostRedex? (term.namelessIn scope).contractLeftmost?

/-- The same holds among the items of a tuple. -/
theorem follows_leftmostRedexAmong?
    {items : List Term}
    (alike : ∀ item ∈ items, item.ContractsAlike)
    (before : List Term)
    (scope : List String) :
    Follows scope (leftmostRedexAmong? before items)
      ((contractLeftmostAmong? (items.map (namelessIn scope))).map fun after =>
        .tuple (before.map (namelessIn scope) ++ after)) := by
  induction items generalizing before with
  | nil =>
      exact fun _ => rfl
  | cons head tail inductionHypothesis =>
      obtain ⟨headAlike, tailAlike⟩ := List.forall_mem_cons.mp alike
      have first :
          Follows scope (head.leftmostRedex?.map (·.under (.item before tail)))
            ((head.namelessIn scope).contractLeftmost?.map fun after =>
              .tuple (before.map (namelessIn scope) ++ after :: tail.map (namelessIn scope))) :=
        (headAlike scope).under (.item before tail) fun _ => by simp [Frame.fill, namelessIn]
      have later := first.or (inductionHypothesis tailAlike (before ++ [head]))
      simpa [leftmostRedexAmong?, contractLeftmostAmong?, Option.map_or, Function.comp_def]
        using later

/-- Every term contracts as its nameless form does. -/
theorem contractsAlike (term : Term) : term.ContractsAlike := by
  induction term with
  | var identifier =>
      intro scope _
      simp only [namelessIn]
      split <;> rfl
  | const identifier =>
      exact fun scope _ => rfl
  | bind binder bound body inductionHypothesis =>
      exact fun scope =>
        (inductionHypothesis (bound.name :: scope)).under (.bind binder bound) fun _ => rfl
  | app function argument functionHypothesis argumentHypothesis =>
      intro scope
      simp only [leftmostRedex?, namelessIn, contractLeftmost?, contractRoot?_namelessIn]
      cases isRedex : redex? function argument with
      | none =>
          exact ((functionHypothesis scope).under (.function argument) fun _ => rfl).or
            ((argumentHypothesis scope).under (.argument function) fun _ => rfl)
      | some redex =>
          intro safe
          have safeHere : ¬redex.Captures := safe ⟨[], redex⟩ rfl
          exact congrArg some (namelessIn_contraction safeHere scope).symm
  | tuple items inductionHypothesis =>
      intro scope
      have among := follows_leftmostRedexAmong? inductionHypothesis [] scope
      simpa [leftmostRedex?, namelessIn, contractLeftmost?] using among
  | neg operand inductionHypothesis =>
      exact fun scope => (inductionHypothesis scope).under .neg fun _ => rfl
  | connect connective left right leftHypothesis rightHypothesis =>
      exact fun scope =>
        ((leftHypothesis scope).under (.connectLeft connective right) fun _ => rfl).or
          ((rightHypothesis scope).under (.connectRight connective left) fun _ => rfl)
  | equal left right leftHypothesis rightHypothesis =>
      exact fun scope =>
        ((leftHypothesis scope).under (.equalLeft right) fun _ => rfl).or
          ((rightHypothesis scope).under (.equalRight left) fun _ => rfl)
  | relate relation left right leftHypothesis rightHypothesis =>
      exact fun scope =>
        ((leftHypothesis scope).under (.relateLeft relation right) fun _ => rfl).or
          ((rightHypothesis scope).under (.relateRight relation left) fun _ => rfl)

/-- The nameless form of a term without redexes is one without redexes. -/
theorem RedexFree.contractLeftmost?_nameless
    {term : Term}
    (free : term.RedexFree) :
    term.nameless.contractLeftmost? = none := by
  have missing := leftmostRedex?_eq_none_iff.mpr free
  have alike := term.contractsAlike [] (by simp [missing])
  rwa [missing] at alike

/-- The nameless form of a term without redexes cannot be reduced. -/
theorem RedexFree.normal
    {term : Term}
    (free : term.RedexFree) :
    term.nameless.Normal :=
  fun _ reduces => reduces.contractLeftmost?_ne_none free.contractLeftmost?_nameless

end Term

end TypedLambda
