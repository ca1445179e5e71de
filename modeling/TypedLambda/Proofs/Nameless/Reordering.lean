import TypedLambda.Proofs.Nameless.StrongNormalisation
import TypedLambda.Proofs.Reordering.Relation

namespace TypedLambda.Term

/-!
# Reordering and reduction

Reordering does not get in the way of reduction: whatever can be reduced in a
term can be reduced in a reordered one, and the results are reordered again. So
a term that could be reduced to itself in another order could be reduced for
ever, and a strongly normalising term is never found again behind a reduction.
-/

namespace Nameless

/-- Two terms without names are alike up to grouping and order. -/
inductive Reordered : Nameless → Nameless → Prop where
  /-- Every term is like itself. -/
  | refl (term : Nameless) : Reordered term term
  /-- Equivalences may be chained. -/
  | trans {left middle right : Nameless} :
      Reordered left middle → Reordered middle right → Reordered left right
  /-- The operands of every connective but the conditional may be exchanged. -/
  | commute (connective : Connective) (left right : Nameless) :
      connective ≠ .conditional →
        Reordered (.connect connective left right) (.connect connective right left)
  /-- The sides of an equation may be exchanged. -/
  | commuteEqual (left right : Nameless) :
      Reordered (.equal left right) (.equal right left)
  /-- Conjunctions and disjunctions may be grouped to the right. -/
  | groupRight (connective : Connective) (left middle right : Nameless) :
      connective.JoinsFreely →
        Reordered
          (.connect connective (.connect connective left middle) right)
          (.connect connective left (.connect connective middle right))
  /-- Conjunctions and disjunctions may be grouped to the left. -/
  | groupLeft (connective : Connective) (left middle right : Nameless) :
      connective.JoinsFreely →
        Reordered
          (.connect connective left (.connect connective middle right))
          (.connect connective (.connect connective left middle) right)
  | bind (binder : Binder) (ty : Ty) {body other : Nameless} :
      Reordered body other → Reordered (.bind binder ty body) (.bind binder ty other)
  | app {function operator argument operand : Nameless} :
      Reordered function operator → Reordered argument operand →
        Reordered (.app function argument) (.app operator operand)
  | tupleCons {item other : Nameless} {rest others : List Nameless} :
      Reordered item other → Reordered (.tuple rest) (.tuple others) →
        Reordered (.tuple (item :: rest)) (.tuple (other :: others))
  | neg {operand other : Nameless} :
      Reordered operand other → Reordered (.neg operand) (.neg other)
  | connect (connective : Connective) {left otherLeft right otherRight : Nameless} :
      Reordered left otherLeft → Reordered right otherRight →
        Reordered (.connect connective left right)
          (.connect connective otherLeft otherRight)
  | equal {left otherLeft right otherRight : Nameless} :
      Reordered left otherLeft → Reordered right otherRight →
        Reordered (.equal left right) (.equal otherLeft otherRight)
  | relate (relation : SetRelation) {left otherLeft right otherRight : Nameless} :
      Reordered left otherLeft → Reordered right otherRight →
        Reordered (.relate relation left right) (.relate relation otherLeft otherRight)

namespace Reordered

/-- The sides may be exchanged. -/
theorem symm
    {left right : Nameless}
    (reordered : Reordered left right) :
    Reordered right left := by
  induction reordered with
  | refl term =>
      exact .refl term
  | trans _ _ firstHypothesis secondHypothesis =>
      exact secondHypothesis.trans firstHypothesis
  | commute connective left right exchangeable =>
      exact .commute connective right left exchangeable
  | commuteEqual left right =>
      exact .commuteEqual right left
  | groupRight connective left middle right free =>
      exact .groupLeft connective left middle right free
  | groupLeft connective left middle right free =>
      exact .groupRight connective left middle right free
  | bind binder ty _ inductionHypothesis =>
      exact .bind binder ty inductionHypothesis
  | app _ _ functionHypothesis argumentHypothesis =>
      exact .app functionHypothesis argumentHypothesis
  | tupleCons _ _ itemHypothesis restHypothesis =>
      exact .tupleCons itemHypothesis restHypothesis
  | neg _ inductionHypothesis =>
      exact .neg inductionHypothesis
  | connect connective _ _ leftHypothesis rightHypothesis =>
      exact .connect connective leftHypothesis rightHypothesis
  | equal _ _ leftHypothesis rightHypothesis =>
      exact .equal leftHypothesis rightHypothesis
  | relate relation _ _ leftHypothesis rightHypothesis =>
      exact .relate relation leftHypothesis rightHypothesis

/-- An item of a tuple may be exchanged for an equivalent one. -/
theorem item
    (earlier later : List Nameless)
    {item other : Nameless}
    (reordered : Reordered item other) :
    Reordered (.tuple (earlier ++ item :: later)) (.tuple (earlier ++ other :: later)) := by
  induction earlier with
  | nil =>
      exact .tupleCons reordered (.refl _)
  | cons head _ inductionHypothesis =>
      exact .tupleCons (.refl head) inductionHypothesis

/-- A binder is reordered in its body only. -/
theorem of_bind
    {binder : Binder}
    {ty : Ty}
    {body after : Nameless}
    (reordered : Reordered (.bind binder ty body) after) :
    ∃ inner, Reordered body inner ∧ after = .bind binder ty inner := by
  generalize isBinder : Nameless.bind binder ty body = before at reordered
  induction reordered generalizing body with
  | refl term =>
      exact ⟨body, .refl body, isBinder.symm⟩
  | trans _ _ firstHypothesis secondHypothesis =>
      obtain ⟨middle, toMiddle, rfl⟩ := firstHypothesis isBinder
      obtain ⟨inner, fromMiddle, isAfter⟩ := secondHypothesis rfl
      exact ⟨inner, toMiddle.trans fromMiddle, isAfter⟩
  | bind _ _ bodies =>
      cases isBinder
      exact ⟨_, bodies, rfl⟩
  | _ =>
      cases isBinder

/-- Reordered terms are still reordered when the same is put into both. -/
theorem substitute
    {left right : Nameless}
    (reordered : Reordered left right)
    (images : Images) :
    Reordered (left.substitute images) (right.substitute images) := by
  induction reordered generalizing images with
  | refl term =>
      exact .refl _
  | trans _ _ firstHypothesis secondHypothesis =>
      exact (firstHypothesis images).trans (secondHypothesis images)
  | commute connective _ _ exchangeable =>
      exact .commute connective _ _ exchangeable
  | commuteEqual =>
      exact .commuteEqual _ _
  | groupRight connective _ _ _ free =>
      exact .groupRight connective _ _ _ free
  | groupLeft connective _ _ _ free =>
      exact .groupLeft connective _ _ _ free
  | bind binder ty _ inductionHypothesis =>
      exact .bind binder ty (inductionHypothesis (under images))
  | app _ _ functionHypothesis argumentHypothesis =>
      exact .app (functionHypothesis images) (argumentHypothesis images)
  | tupleCons _ _ itemHypothesis restHypothesis =>
      exact .tupleCons (itemHypothesis images) (restHypothesis images)
  | neg _ inductionHypothesis =>
      exact .neg (inductionHypothesis images)
  | connect connective _ _ leftHypothesis rightHypothesis =>
      exact .connect connective (leftHypothesis images) (rightHypothesis images)
  | equal _ _ leftHypothesis rightHypothesis =>
      exact .equal (leftHypothesis images) (rightHypothesis images)
  | relate relation _ _ leftHypothesis rightHypothesis =>
      exact .relate relation (leftHypothesis images) (rightHypothesis images)

/-- Reordered terms are still reordered below one more binder. -/
theorem shift
    {left right : Nameless}
    (reordered : Reordered left right) :
    Reordered left.shift right.shift := by
  rw [shift_eq_substitute, shift_eq_substitute]
  exact reordered.substitute _

/-- What is put into a term may be exchanged for reordered terms. -/
theorem substitute_images
    (term : Nameless)
    {images others : Images}
    (pointwise : ∀ index ty, Reordered (images index ty) (others index ty)) :
    Reordered (term.substitute images) (term.substitute others) := by
  induction term generalizing images others with
  | bound index ty =>
      exact pointwise index ty
  | free identifier =>
      exact .refl _
  | const identifier =>
      exact .refl _
  | bind binder ty body inductionHypothesis =>
      refine .bind binder ty (inductionHypothesis fun index ty => ?_)
      cases index with
      | zero =>
          exact .refl _
      | succ outer =>
          exact (pointwise outer ty).shift
  | app _ _ functionHypothesis argumentHypothesis =>
      exact .app (functionHypothesis pointwise) (argumentHypothesis pointwise)
  | tuple items inductionHypothesis =>
      induction items with
      | nil =>
          exact .refl _
      | cons head tail tailHypothesis =>
          obtain ⟨first, later⟩ := List.forall_mem_cons.mp inductionHypothesis
          exact .tupleCons (first pointwise) (tailHypothesis later)
  | neg _ inductionHypothesis =>
      exact .neg (inductionHypothesis pointwise)
  | connect connective _ _ leftHypothesis rightHypothesis =>
      exact .connect connective (leftHypothesis pointwise) (rightHypothesis pointwise)
  | equal _ _ leftHypothesis rightHypothesis =>
      exact .equal (leftHypothesis pointwise) (rightHypothesis pointwise)
  | relate relation _ _ leftHypothesis rightHypothesis =>
      exact .relate relation (leftHypothesis pointwise) (rightHypothesis pointwise)

/-- A body and what is filled in for its binder may be reordered together. -/
theorem instantiate
    {body other argument operand : Nameless}
    (bodies : Reordered body other)
    (arguments : Reordered argument operand) :
    Reordered (body.instantiate argument) (other.instantiate operand) := by
  refine (bodies.substitute _).trans (substitute_images other fun index ty => ?_)
  cases index with
  | zero =>
      exact arguments
  | succ outer =>
      exact .refl _

/-- What can be reduced can be reduced in a reordered term, to a reordered one. -/
theorem exists_reduces
    {before other after : Nameless}
    (reordered : Reordered before other)
    (reduces : Reduces before after) :
    ∃ otherAfter, Reduces other otherAfter ∧ Reordered after otherAfter := by
  -- By induction on the reordering, and in each case by the part that is reduced.
  induction reordered generalizing after with
  | refl term =>
      exact ⟨after, reduces, .refl after⟩
  | trans _ _ firstHypothesis secondHypothesis =>
      obtain ⟨middle, inMiddle, toMiddle⟩ := firstHypothesis reduces
      obtain ⟨last, inLast, fromMiddle⟩ := secondHypothesis inMiddle
      exact ⟨last, inLast, toMiddle.trans fromMiddle⟩
  | commute connective left right exchangeable =>
      rcases reduces_connect_iff.mp reduces with
        ⟨inner, inLeft, rfl⟩ | ⟨inner, inRight, rfl⟩
      · exact ⟨_, .connectRight connective right inLeft,
          .commute connective inner right exchangeable⟩
      · exact ⟨_, .connectLeft connective left inRight,
          .commute connective left inner exchangeable⟩
  | commuteEqual left right =>
      rcases reduces_equal_iff.mp reduces with
        ⟨inner, inLeft, rfl⟩ | ⟨inner, inRight, rfl⟩
      · exact ⟨_, .equalRight right inLeft, .commuteEqual inner right⟩
      · exact ⟨_, .equalLeft left inRight, .commuteEqual left inner⟩
  | groupRight connective left middle right free =>
      rcases reduces_connect_iff.mp reduces with
        ⟨_, inGroup, rfl⟩ | ⟨inner, inRight, rfl⟩
      · rcases reduces_connect_iff.mp inGroup with
          ⟨inner, inLeft, rfl⟩ | ⟨inner, inMiddle, rfl⟩
        · exact ⟨_, .connectLeft connective _ inLeft,
            .groupRight connective inner middle right free⟩
        · exact ⟨_, .connectRight connective left (.connectLeft connective right inMiddle),
            .groupRight connective left inner right free⟩
      · exact ⟨_, .connectRight connective left (.connectRight connective middle inRight),
          .groupRight connective left middle inner free⟩
  | groupLeft connective left middle right free =>
      rcases reduces_connect_iff.mp reduces with
        ⟨inner, inLeft, rfl⟩ | ⟨_, inGroup, rfl⟩
      · exact ⟨_, .connectLeft connective right (.connectLeft connective middle inLeft),
          .groupLeft connective inner middle right free⟩
      · rcases reduces_connect_iff.mp inGroup with
          ⟨inner, inMiddle, rfl⟩ | ⟨inner, inRight, rfl⟩
        · exact ⟨_, .connectLeft connective right (.connectRight connective left inMiddle),
            .groupLeft connective left inner right free⟩
        · exact ⟨_, .connectRight connective _ inRight,
            .groupLeft connective left middle inner free⟩
  | bind binder ty _ inductionHypothesis =>
      obtain ⟨_, inBody, rfl⟩ := reduces_bind_iff.mp reduces
      obtain ⟨_, inOther, bodies⟩ := inductionHypothesis inBody
      exact ⟨_, .bind binder ty inOther, .bind binder ty bodies⟩
  | @app _ operator _ operand functions arguments functionHypothesis argumentHypothesis =>
      rcases reduces_app_iff.mp reduces with
        ⟨ty, body, rfl, rfl⟩ | ⟨_, inFunction, rfl⟩ | ⟨_, inArgument, rfl⟩
      · obtain ⟨otherBody, bodies, rfl⟩ := functions.of_bind
        exact ⟨_, .contract ty otherBody operand, bodies.instantiate arguments⟩
      · obtain ⟨_, inOperator, functions⟩ := functionHypothesis inFunction
        exact ⟨_, .function operand inOperator, .app functions arguments⟩
      · obtain ⟨_, inOperand, arguments⟩ := argumentHypothesis inArgument
        exact ⟨_, .argument operator inOperand, .app functions arguments⟩
  | @tupleCons _ other _ others items rests itemHypothesis restHypothesis =>
      rcases reduces_tuple_cons_iff.mp reduces with
        ⟨_, inItem, rfl⟩ | ⟨_, inRest, rfl⟩
      · obtain ⟨_, inOther, items⟩ := itemHypothesis inItem
        exact ⟨_, .item [] others inOther, .tupleCons items rests⟩
      · obtain ⟨_, inOthers, rests⟩ := restHypothesis inRest
        obtain ⟨later, rfl⟩ := exists_tuple_of_reduces inOthers
        exact ⟨_, reduces_tuple_cons_iff.mpr (.inr ⟨later, inOthers, rfl⟩),
          .tupleCons items rests⟩
  | neg _ inductionHypothesis =>
      obtain ⟨_, inOperand, rfl⟩ := reduces_neg_iff.mp reduces
      obtain ⟨_, inOther, operands⟩ := inductionHypothesis inOperand
      exact ⟨_, .neg inOther, .neg operands⟩
  | @connect connective _ otherLeft _ otherRight lefts rights leftHypothesis rightHypothesis =>
      rcases reduces_connect_iff.mp reduces with
        ⟨_, inLeft, rfl⟩ | ⟨_, inRight, rfl⟩
      · obtain ⟨_, inOther, lefts⟩ := leftHypothesis inLeft
        exact ⟨_, .connectLeft connective otherRight inOther, .connect connective lefts rights⟩
      · obtain ⟨_, inOther, rights⟩ := rightHypothesis inRight
        exact ⟨_, .connectRight connective otherLeft inOther, .connect connective lefts rights⟩
  | @equal _ otherLeft _ otherRight lefts rights leftHypothesis rightHypothesis =>
      rcases reduces_equal_iff.mp reduces with
        ⟨_, inLeft, rfl⟩ | ⟨_, inRight, rfl⟩
      · obtain ⟨_, inOther, lefts⟩ := leftHypothesis inLeft
        exact ⟨_, .equalLeft otherRight inOther, .equal lefts rights⟩
      · obtain ⟨_, inOther, rights⟩ := rightHypothesis inRight
        exact ⟨_, .equalRight otherLeft inOther, .equal lefts rights⟩
  | @relate relation _ otherLeft _ otherRight lefts rights leftHypothesis rightHypothesis =>
      rcases reduces_relate_iff.mp reduces with
        ⟨_, inLeft, rfl⟩ | ⟨_, inRight, rfl⟩
      · obtain ⟨_, inOther, lefts⟩ := leftHypothesis inLeft
        exact ⟨_, .relateLeft relation otherRight inOther, .relate relation lefts rights⟩
      · obtain ⟨_, inOther, rights⟩ := rightHypothesis inRight
        exact ⟨_, .relateRight relation otherLeft inOther, .relate relation lefts rights⟩

end Reordered

/-- No reduction leads from a strongly normalising term to the same term reordered. -/
theorem StronglyNormalising.not_reordered
    {term after : Nameless}
    (normalising : StronglyNormalising term)
    (reduces : Reduces term after) :
    ¬Reordered term after := by
  induction normalising generalizing after with
  | intro term _ inductionHypothesis =>
      intro reordered
      -- The result can be reduced in the same way, so it has the property of the term.
      obtain ⟨next, reducesAgain, reorderedAgain⟩ := reordered.exists_reduces reduces
      exact inductionHypothesis after reduces reducesAgain reorderedAgain

end Nameless

/-- Reordered terms are reordered without names, whatever is bound outside. -/
theorem Reordered.namelessIn
    {left right : Term}
    (reordered : Reordered left right)
    (scope : List String) :
    Nameless.Reordered (left.namelessIn scope) (right.namelessIn scope) := by
  induction reordered generalizing scope with
  | alpha equivalent =>
      rw [equivalent.namelessIn_eq scope]
      exact .refl _
  | symm _ inductionHypothesis =>
      exact (inductionHypothesis scope).symm
  | trans _ _ firstHypothesis secondHypothesis =>
      exact (firstHypothesis scope).trans (secondHypothesis scope)
  | frame frame _ inductionHypothesis =>
      cases frame with
      | bind binder bound =>
          exact .bind binder bound.ty (inductionHypothesis (bound.name :: scope))
      | function argument =>
          exact .app (inductionHypothesis scope) (.refl _)
      | argument function =>
          exact .app (.refl _) (inductionHypothesis scope)
      | item before after =>
          simp only [Frame.fill, Term.namelessIn, namelessAllIn_eq_map, List.map_append,
            List.map_cons]
          exact (inductionHypothesis scope).item _ _
      | neg =>
          exact .neg (inductionHypothesis scope)
      | connectLeft connective right =>
          exact .connect connective (inductionHypothesis scope) (.refl _)
      | connectRight connective left =>
          exact .connect connective (.refl _) (inductionHypothesis scope)
      | equalLeft right =>
          exact .equal (inductionHypothesis scope) (.refl _)
      | equalRight left =>
          exact .equal (.refl _) (inductionHypothesis scope)
      | relateLeft relation right =>
          exact .relate relation (inductionHypothesis scope) (.refl _)
      | relateRight relation left =>
          exact .relate relation (.refl _) (inductionHypothesis scope)
  | commute connective left right exchangeable =>
      exact .commute connective _ _ exchangeable
  | commuteEqual left right =>
      exact .commuteEqual _ _
  | associate connective left middle right free =>
      exact .groupRight connective _ _ _ free

end TypedLambda.Term
