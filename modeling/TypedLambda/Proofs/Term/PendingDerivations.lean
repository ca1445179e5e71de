import TypedLambda.Proofs.Term.ReaderRuns
import TypedLambda.Proofs.Term.Reads

namespace TypedLambda.Term.Reader

/-!
# Pending operators as derivations

A pending operator stands for the tokens of an expression that lack those of
its last operand. Pending operators begin one after the other, and with an
operand for the innermost they are expressions of the grammar, as many of them
as are complete before a connective, before a sign or at the end, provided
that the bodies among them may end there.
-/

open Grammar

variable {options : ReadingOptions} {Body : List Token → List Token → Prop}
variable {first tokens middle rest : List Token}

/-- The category of the expression that comes about with the last operand. -/
def Pending.category : Pending → Category
  | .negation => .unary
  | .equation _ => .relation
  | .relation _ _ => .relation
  | .connective operator _ => .ofConnective operator
  | .binder _ _ => .unary

theorem Pending.category_ne_list (operator : Pending) : operator.category ≠ .list := by
  cases operator with
  | connective connective left =>
      cases connective <;> simp [category, Category.ofConnective]
  | _ =>
      simp [category]

theorem Pending.strength_le_category (operator : Pending) :
    operator.strength ≤ operator.category.strength := by
  cases operator with
  | connective connective left =>
      cases connective <;> exact Nat.le_refl _
  | binder =>
      exact Nat.zero_le _
  | _ =>
      exact Nat.le_refl _

/-- A term that holds together like a negation can follow any operator. -/
theorem accepts_of_six_le
    {strength : Nat}
    (strong : 6 ≤ strength)
    (pending : List Pending) :
    Accepts pending strength := by
  intro operator _
  refine Nat.le_trans ?_ strong
  cases operator with
  | connective connective left =>
      cases connective <;> simp [Pending.operandStrength, Connective.rightStrength]
  | _ =>
      simp [Pending.operandStrength]

/-- The category of what comes about when operators are complete, the innermost first. -/
def outermost (category : Category) (pending : List Pending) : Category :=
  pending.foldl (fun _ operator => operator.category) category

/-- The tokens of an operator, with its left operand if it has one, and without its last one. -/
inductive Begins
    (options : ReadingOptions)
    (Body : List Token → List Token → Prop) :
    Pending → List Token → List Token → Prop where
  | negation {rest : List Token} :
      Begins options Body .negation (.negation :: rest) rest
  | equation
      {tokens rest : List Token}
      {left : Term}
      (derives : Derives options Body .unary tokens (.equals :: rest) left) :
      Begins options Body (.equation left) tokens rest
  | relation
      {tokens rest : List Token}
      {relation : SetRelation}
      {left : Term}
      (derives : Derives options Body .unary tokens (.relation relation :: rest) left) :
      Begins options Body (.relation relation left) tokens rest
  | connective
      {tokens rest : List Token}
      {connective : Connective}
      {left : Term}
      (derives :
        Derives options Body (.leftOf connective) tokens (.connective connective :: rest) left) :
      Begins options Body (.connective connective left) tokens rest
  | binder
      {tokens rest : List Token}
      {binder : Binder}
      {names : List String}
      {bound : List Identifier}
      (heads : Heads options binder names tokens rest)
      (binds : List.Forall₂ (Binds options) names bound) :
      Begins options Body (.binder binder bound) tokens rest

/-- With its last operand an operator is an expression. -/
theorem Begins.complete
    {operator : Pending}
    {category : Category}
    {last : Term}
    (begins : Begins options Body operator tokens middle)
    (derives : Derives options Body category middle rest last)
    (isExpression : category ≠ .list)
    (strong : operator.operandStrength ≤ category.strength)
    (ends :
      ∀ binder bound,
        operator = .binder binder bound →
          ∀ body, Derives options Body .equivalence middle rest body → Body middle rest) :
    Derives options Body operator.category tokens rest (operator.complete last) := by
  cases begins with
  | negation =>
      exact .neg (derives.loosen _ isExpression strong)
  | equation derivesLeft =>
      exact .equal derivesLeft (derives.loosen _ isExpression strong)
  | relation derivesLeft =>
      exact .relate derivesLeft (derives.loosen _ isExpression strong)
  | connective derivesLeft =>
      refine .connect derivesLeft (derives.loosen _ isExpression ?_)
      rw [Category.strength_rightOf]
      exact strong
  | binder heads binds =>
      have derivesBody := derives.loosen .equivalence isExpression category.strength_pos
      exact .bind heads binds derivesBody (ends _ _ rfl _ derivesBody)

/--
The pending operators of a level begin one after the other. Each accepts the
one that begins in its operand, and the reader has come by behind each of them.
-/
inductive Pends
    (options : ReadingOptions)
    (Body : List Token → List Token → Prop)
    (first : List Token)
    (outer : List Level) :
    List Pending → List Token → List Token → Prop where
  | nil {tokens : List Token} : Pends options Body first outer [] tokens tokens
  | cons
      {operator : Pending}
      {pending : List Pending}
      {tokens middle rest : List Token}
      (pends : Pends options Body first outer pending tokens middle)
      (accepts : Accepts pending operator.category.strength)
      (begins : Begins options Body operator middle rest)
      (reached :
        Follows options ⟨start, first⟩ ⟨⟨.operand, operator :: pending, outer⟩, rest⟩) :
      Pends options Body first outer (operator :: pending) tokens rest

/--
A body that the reader began behind the given operators, the binder innermost,
may end in front of the rest.
-/
def MayEnd
    (options : ReadingOptions)
    (Body : List Token → List Token → Prop)
    (first : List Token)
    (outer : List Level)
    (pending : List Pending)
    (rest : List Token) : Prop :=
  ∀ body term,
    Follows options ⟨start, first⟩ ⟨⟨.operand, pending, outer⟩, body⟩ →
      Derives options Body .equivalence body rest term →
        Body body rest

variable {outer : List Level}

/-- With an operand, the inner ones of the pending operators are an expression. -/
theorem Pends.complete
    {inner outside : List Pending}
    {category : Category}
    {last : Term}
    (pends : Pends options Body first outer (inner ++ outside) tokens middle)
    (derives : Derives options Body category middle rest last)
    (isExpression : category ≠ .list)
    (accepts : Accepts (inner ++ outside) category.strength)
    (ends :
      ∀ deeper binder bound further,
        inner = deeper ++ .binder binder bound :: further →
          MayEnd options Body first outer (.binder binder bound :: (further ++ outside)) rest) :
    ∃ operand,
      Pends options Body first outer outside tokens operand ∧
        Derives options Body (outermost category inner) operand rest
          (completeAll last inner) := by
  induction inner generalizing category middle last with
  | nil =>
      exact ⟨middle, pends, derives⟩
  | cons operator inner inductionHypothesis =>
      cases pends with
      | cons pends acceptsOperator begins reached =>
          have completed :=
            begins.complete derives isExpression (accepts operator rfl)
              (fun binder bound isBinder body derivesBody => by
                subst isBinder
                exact ends [] binder bound inner rfl _ body reached derivesBody)
          exact inductionHypothesis pends completed operator.category_ne_list
            acceptsOperator
            (fun deeper binder bound further isInner =>
              ends (operator :: deeper) binder bound further
                (congrArg (operator :: ·) isInner))

section Completion

variable {pending remaining : List Pending} {last left : Term}

/-- Exactly the inner operators that are strong enough are complete before a connective. -/
theorem exists_of_completeDown
    {strength : Nat}
    (completed : completeDown strength last pending = (left, remaining)) :
    ∃ inner,
      pending = inner ++ remaining ∧
        left = completeAll last inner ∧
        (∀ operator ∈ inner, strength ≤ operator.strength) ∧
        ∀ operator ∈ remaining.head?, operator.strength < strength := by
  induction pending generalizing last with
  | nil =>
      cases completed
      exact ⟨[], rfl, rfl, nofun, nofun⟩
  | cons operator pending inductionHypothesis =>
      rw [completeDown] at completed
      split at completed
      · next strong =>
          obtain ⟨inner, rfl, rfl, innerStrong, weak⟩ := inductionHypothesis completed
          exact ⟨operator :: inner, rfl, rfl, List.forall_mem_cons.mpr ⟨strong, innerStrong⟩,
            weak⟩
      · next weak =>
          cases completed
          refine ⟨[], rfl, rfl, nofun, fun first isFirst => ?_⟩
          obtain rfl : operator = first := by simpa using isFirst
          exact Nat.not_le.mp weak

/--
The inner operators are complete before a sign, and make a negation, a binder
or something tighter. A binder is only among them if there is no left side in
its body.
-/
structure Compares
    (isRelation : Bool)
    (category : Category)
    (last : Term)
    (inner pending remaining : List Pending)
    (left : Term) : Prop where
  isPending : pending = inner ++ remaining
  isLeft : left = completeAll last inner
  tight : 6 ≤ (outermost category inner).strength
  accepts : Accepts remaining Category.relation.strength
  closed :
    ∀ deeper binder bound further,
      inner = deeper ++ .binder binder bound :: further →
        completeToRelation isRelation last deeper = none

theorem Compares.cons
    {isRelation next : Bool}
    {category : Category}
    {operator : Pending}
    {inner : List Pending}
    (compares :
      Compares next operator.category (operator.complete last) inner pending remaining left)
    (continues :
      ∀ deeper,
        completeToRelation isRelation last (operator :: deeper) =
          completeToRelation next (operator.complete last) deeper)
    (closes :
      ∀ binder bound,
        operator = .binder binder bound → completeToRelation isRelation last [] = none) :
    Compares isRelation category last (operator :: inner) (operator :: pending)
      remaining left := by
  obtain ⟨rfl, rfl, tight, accepts, closed⟩ := compares
  refine ⟨rfl, rfl, tight, accepts, fun deeper binder bound further isInner => ?_⟩
  cases deeper with
  | nil =>
      exact closes binder bound (List.cons.inj isInner).1
  | cons other deeper =>
      obtain ⟨rfl, isRest⟩ := List.cons.inj isInner
      rw [continues]
      exact closed deeper binder bound further isRest

/-- Whatever is complete before a sign becomes its left side. -/
theorem exists_of_completeToRelation
    {isRelation : Bool}
    {category : Category}
    (tight : isRelation = false → 6 ≤ category.strength)
    (completed : completeToRelation isRelation last pending = some (left, remaining)) :
    ∃ inner, Compares isRelation category last inner pending remaining left := by
  induction pending generalizing isRelation category last with
  | nil =>
      cases isRelation with
      | false =>
          cases completed
          exact ⟨[], rfl, rfl, tight rfl, by simp [Accepts], by simp⟩
      | true =>
          cases completed
  | cons operator pending inductionHypothesis =>
      -- An operator that is completed becomes the innermost of those that are completed.
      have completes
          (next : Bool)
          (tightOperator : next = false → 6 ≤ operator.category.strength)
          (continues :
            ∀ deeper,
              completeToRelation isRelation last (operator :: deeper) =
                completeToRelation next (operator.complete last) deeper)
          (closes :
            ∀ binder bound,
              operator = .binder binder bound →
                completeToRelation isRelation last [] = none) :
          ∃ inner,
            Compares isRelation category last inner (operator :: pending) remaining left := by
        rw [continues] at completed
        obtain ⟨inner, compares⟩ := inductionHypothesis tightOperator completed
        exact ⟨_, compares.cons continues closes⟩
      cases operator with
      | negation =>
          exact completes isRelation (fun _ => Nat.le_refl _) (fun _ => rfl) (by simp)
      | equation | relation =>
          exact completes true (by simp) (fun _ => rfl) (by simp)
      | connective connective earlier =>
          cases isRelation with
          | false =>
              cases completed
              refine ⟨[], rfl, rfl, tight rfl, ?_, by simp⟩
              cases connective <;>
                simp [Accepts, Pending.operandStrength, Connective.rightStrength,
                  Category.strength]
          | true =>
              exact completes true (by simp) (fun _ => rfl) (by simp)
      | binder =>
          cases isRelation with
          | false =>
              cases completed
              exact ⟨[], rfl, rfl, tight rfl, by simp [Accepts, Pending.operandStrength],
                by simp⟩
          | true =>
              exact completes false (fun _ => Nat.le_refl _) (fun _ => rfl) fun _ _ _ => rfl

end Completion

/-- An operator that completes what is stronger than its left operand can follow the others. -/
theorem accepts_of_weak
    {connective : Connective}
    {remaining : List Pending}
    (weak : ∀ operator ∈ remaining.head?, operator.strength < connective.leftStrength) :
    Accepts remaining (Category.ofConnective connective).strength := by
  intro operator isFirst
  have weaker := weak operator isFirst
  cases operator with
  | connective earlier left =>
      cases earlier <;> cases connective <;>
        simp_all [Pending.strength, Connective.leftStrength, Pending.operandStrength,
          Connective.rightStrength, Category.ofConnective, Category.strength]
  | binder =>
      exact Nat.zero_le _
  | _ =>
      cases connective <;> simp [Pending.strength, Connective.leftStrength] at weaker

/-- Where strong operators are complete, a strong expression comes about. -/
theorem le_strength_outermost
    {strength : Nat}
    {category : Category}
    {inner : List Pending}
    (strong : strength ≤ category.strength)
    (innerStrong : ∀ operator ∈ inner, strength ≤ operator.strength) :
    strength ≤ (outermost category inner).strength := by
  induction inner generalizing category with
  | nil =>
      exact strong
  | cons operator inner inductionHypothesis =>
      rw [List.forall_mem_cons] at innerStrong
      exact inductionHypothesis
        (Nat.le_trans innerStrong.1 operator.strength_le_category) innerStrong.2

theorem outermost_ne_list
    {category : Category}
    (isExpression : category ≠ .list)
    (inner : List Pending) :
    outermost category inner ≠ .list := by
  induction inner generalizing category with
  | nil =>
      exact isExpression
  | cons operator inner inductionHypothesis =>
      exact inductionHypothesis operator.category_ne_list

/-- With the operand read last, all pending operators of a level are an expression. -/
theorem Pends.whole
    {pending : List Pending}
    {last : Term}
    (pends : Pends options Body first outer pending tokens middle)
    (derives : Derives options Body .application middle rest last)
    (ends :
      ∀ deeper binder bound further,
        pending = deeper ++ .binder binder bound :: further →
          MayEnd options Body first outer (.binder binder bound :: further) rest) :
    Derives options Body .equivalence tokens rest (completeAll last pending) := by
  rw [← List.append_nil pending] at pends
  obtain ⟨operand, noPending, completed⟩ :=
    pends.complete derives nofun (accepts_of_six_le (by decide) _)
      (fun deeper binder bound further isPending => by
        rw [List.append_nil]
        exact ends deeper binder bound further isPending)
  cases noPending
  have isExpression := outermost_ne_list (by decide : Category.application ≠ .list) pending
  exact completed.loosen .equivalence isExpression (Category.strength_pos _)

end TypedLambda.Term.Reader
