import TypedLambda.Proofs.Nameless.Substitution

namespace TypedLambda.Term.Nameless

/-!
# Reduction of nameless terms

An abstraction applied to an argument is contracted by filling in its binder,
at any place in a term and without regard to an order. Where a reduction can
take place in a term is told apart by the node at its root. A reduction is
still possible after terms have been put in the place of open occurrences.
-/

/-- One application of an abstraction is contracted somewhere in the term. -/
inductive Reduces : Nameless → Nameless → Prop where
  /-- The application at the root. -/
  | contract (ty : Ty) (body argument : Nameless) :
      Reduces (.app (.bind .lambda ty body) argument) (body.instantiate argument)
  | bind (binder : Binder) (ty : Ty) {body after : Nameless} :
      Reduces body after → Reduces (.bind binder ty body) (.bind binder ty after)
  | function {function after : Nameless} (argument : Nameless) :
      Reduces function after → Reduces (.app function argument) (.app after argument)
  | argument (function : Nameless) {argument after : Nameless} :
      Reduces argument after → Reduces (.app function argument) (.app function after)
  | item (earlier later : List Nameless) {item after : Nameless} :
      Reduces item after →
        Reduces (.tuple (earlier ++ item :: later)) (.tuple (earlier ++ after :: later))
  | neg {operand after : Nameless} :
      Reduces operand after → Reduces (.neg operand) (.neg after)
  | connectLeft (connective : Connective) {left after : Nameless} (right : Nameless) :
      Reduces left after →
        Reduces (.connect connective left right) (.connect connective after right)
  | connectRight (connective : Connective) (left : Nameless) {right after : Nameless} :
      Reduces right after →
        Reduces (.connect connective left right) (.connect connective left after)
  | equalLeft {left after : Nameless} (right : Nameless) :
      Reduces left after → Reduces (.equal left right) (.equal after right)
  | equalRight (left : Nameless) {right after : Nameless} :
      Reduces right after → Reduces (.equal left right) (.equal left after)
  | relateLeft (relation : SetRelation) {left after : Nameless} (right : Nameless) :
      Reduces left after →
        Reduces (.relate relation left right) (.relate relation after right)
  | relateRight (relation : SetRelation) (left : Nameless) {right after : Nameless} :
      Reduces right after →
        Reduces (.relate relation left right) (.relate relation left after)

/-- Nothing in the term can be reduced. -/
def Normal (term : Nameless) : Prop :=
  ∀ after, ¬Reduces term after

section Reduces

variable {first second after : Nameless}

@[simp] theorem not_reduces_free (identifier : Identifier) :
    ¬Reduces (.free identifier) after := by
  intro reduces
  cases reduces

@[simp] theorem not_reduces_const (identifier : Identifier) :
    ¬Reduces (.const identifier) after := by
  intro reduces
  cases reduces

theorem reduces_bind_iff {binder : Binder} {ty : Ty} :
    Reduces (.bind binder ty first) after ↔
      ∃ inner, Reduces first inner ∧ after = .bind binder ty inner := by
  constructor
  · intro reduces
    cases reduces with
    | bind _ _ inBody =>
        exact ⟨_, inBody, rfl⟩
  · rintro ⟨inner, inBody, rfl⟩
    exact .bind binder ty inBody

theorem reduces_app_iff :
    Reduces (.app first second) after ↔
      (∃ ty body, first = .bind .lambda ty body ∧ after = body.instantiate second) ∨
        (∃ inner, Reduces first inner ∧ after = .app inner second) ∨
        ∃ inner, Reduces second inner ∧ after = .app first inner := by
  constructor
  · intro reduces
    cases reduces with
    | contract ty body =>
        exact .inl ⟨ty, body, rfl, rfl⟩
    | function _ inFunction =>
        exact .inr (.inl ⟨_, inFunction, rfl⟩)
    | argument _ inArgument =>
        exact .inr (.inr ⟨_, inArgument, rfl⟩)
  · rintro (⟨ty, body, rfl, rfl⟩ | ⟨inner, inFunction, rfl⟩ | ⟨inner, inArgument, rfl⟩)
    · exact .contract ty body second
    · exact .function second inFunction
    · exact .argument first inArgument

theorem reduces_tuple_cons_iff {rest : List Nameless} :
    Reduces (.tuple (first :: rest)) after ↔
      (∃ inner, Reduces first inner ∧ after = .tuple (inner :: rest)) ∨
        ∃ others, Reduces (.tuple rest) (.tuple others) ∧
          after = .tuple (first :: others) := by
  constructor
  · intro reduces
    generalize isTuple : Nameless.tuple (first :: rest) = before at reduces
    cases reduces with
    | item earlier later inItem =>
        cases earlier with
        | nil =>
            simp only [List.nil_append, Nameless.tuple.injEq, List.cons.injEq] at isTuple
            obtain ⟨rfl, rfl⟩ := isTuple
            exact .inl ⟨_, inItem, rfl⟩
        | cons head tail =>
            simp only [List.cons_append, Nameless.tuple.injEq, List.cons.injEq] at isTuple
            obtain ⟨rfl, rfl⟩ := isTuple
            exact .inr ⟨_, .item tail later inItem, rfl⟩
    | _ =>
        cases isTuple
  · rintro (⟨inner, inItem, rfl⟩ | ⟨others, inRest, rfl⟩)
    · exact .item [] rest inItem
    · cases inRest with
      | item earlier later inItem =>
          exact .item (first :: earlier) later inItem

@[simp] theorem not_reduces_tuple_nil : ¬Reduces (.tuple []) after := by
  intro reduces
  generalize isTuple : Nameless.tuple [] = before at reduces
  cases reduces with
  | item earlier later _ =>
      simp at isTuple
  | _ =>
      cases isTuple

/-- A tuple is reduced to a tuple. -/
theorem exists_tuple_of_reduces
    {items : List Nameless}
    (reduces : Reduces (.tuple items) after) :
    ∃ others, after = .tuple others := by
  generalize isTuple : Nameless.tuple items = before at reduces
  cases reduces with
  | item earlier later _ =>
      exact ⟨_, rfl⟩
  | _ =>
      cases isTuple

theorem reduces_neg_iff :
    Reduces (.neg first) after ↔ ∃ inner, Reduces first inner ∧ after = .neg inner := by
  constructor
  · intro reduces
    cases reduces with
    | neg inOperand =>
        exact ⟨_, inOperand, rfl⟩
  · rintro ⟨inner, inOperand, rfl⟩
    exact .neg inOperand

theorem reduces_connect_iff {connective : Connective} :
    Reduces (.connect connective first second) after ↔
      (∃ inner, Reduces first inner ∧ after = .connect connective inner second) ∨
        ∃ inner, Reduces second inner ∧ after = .connect connective first inner := by
  constructor
  · intro reduces
    cases reduces with
    | connectLeft _ _ inLeft =>
        exact .inl ⟨_, inLeft, rfl⟩
    | connectRight _ _ inRight =>
        exact .inr ⟨_, inRight, rfl⟩
  · rintro (⟨inner, inLeft, rfl⟩ | ⟨inner, inRight, rfl⟩)
    · exact .connectLeft connective second inLeft
    · exact .connectRight connective first inRight

theorem reduces_equal_iff :
    Reduces (.equal first second) after ↔
      (∃ inner, Reduces first inner ∧ after = .equal inner second) ∨
        ∃ inner, Reduces second inner ∧ after = .equal first inner := by
  constructor
  · intro reduces
    cases reduces with
    | equalLeft _ inLeft =>
        exact .inl ⟨_, inLeft, rfl⟩
    | equalRight _ inRight =>
        exact .inr ⟨_, inRight, rfl⟩
  · rintro (⟨inner, inLeft, rfl⟩ | ⟨inner, inRight, rfl⟩)
    · exact .equalLeft second inLeft
    · exact .equalRight first inRight

theorem reduces_relate_iff {relation : SetRelation} :
    Reduces (.relate relation first second) after ↔
      (∃ inner, Reduces first inner ∧ after = .relate relation inner second) ∨
        ∃ inner, Reduces second inner ∧ after = .relate relation first inner := by
  constructor
  · intro reduces
    cases reduces with
    | relateLeft _ _ inLeft =>
        exact .inl ⟨_, inLeft, rfl⟩
    | relateRight _ _ inRight =>
        exact .inr ⟨_, inRight, rfl⟩
  · rintro (⟨inner, inLeft, rfl⟩ | ⟨inner, inRight, rfl⟩)
    · exact .relateLeft relation second inLeft
    · exact .relateRight relation first inRight

end Reduces

/-- What can be reduced can still be reduced after a substitution. -/
theorem Reduces.substitute
    {before after : Nameless}
    (reduces : Reduces before after)
    (images : Images) :
    Reduces (before.substitute images) (after.substitute images) := by
  induction reduces generalizing images with
  | contract ty body argument =>
      rw [substitute_instantiate]
      exact .contract ty _ _
  | bind binder ty _ inductionHypothesis =>
      exact .bind binder ty (inductionHypothesis (under images))
  | function argument _ inductionHypothesis =>
      exact .function _ (inductionHypothesis images)
  | argument function _ inductionHypothesis =>
      exact .argument _ (inductionHypothesis images)
  | item earlier later _ inductionHypothesis =>
      simp only [Nameless.substitute, substituteAll_eq_map, List.map_append, List.map_cons]
      exact .item _ _ (inductionHypothesis images)
  | neg _ inductionHypothesis =>
      exact .neg (inductionHypothesis images)
  | connectLeft connective right _ inductionHypothesis =>
      exact .connectLeft connective _ (inductionHypothesis images)
  | connectRight connective left _ inductionHypothesis =>
      exact .connectRight connective _ (inductionHypothesis images)
  | equalLeft right _ inductionHypothesis =>
      exact .equalLeft _ (inductionHypothesis images)
  | equalRight left _ inductionHypothesis =>
      exact .equalRight _ (inductionHypothesis images)
  | relateLeft relation right _ inductionHypothesis =>
      exact .relateLeft relation _ (inductionHypothesis images)
  | relateRight relation left _ inductionHypothesis =>
      exact .relateRight relation _ (inductionHypothesis images)

/-- What can be reduced in the body of a binder can be once the binder is filled in. -/
theorem Reduces.instantiate
    {before after : Nameless}
    (reduces : Reduces before after)
    (argument : Nameless) :
    Reduces (before.instantiate argument) (after.instantiate argument) :=
  reduces.substitute _

/-- What can be reduced can be below one more binder. -/
theorem Reduces.shift
    {before after : Nameless}
    (reduces : Reduces before after) :
    Reduces before.shift after.shift := by
  rw [shift_eq_substitute, shift_eq_substitute]
  exact reduces.substitute _

end TypedLambda.Term.Nameless
