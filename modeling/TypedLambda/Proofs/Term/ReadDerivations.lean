import TypedLambda.Proofs.Term.PendingDerivations

namespace TypedLambda.Term.Reader

/-!
# What is read is derived

Whatever the reader has put together is derived by the grammar from the tokens
that it has read: its operand, the left operands of the pending operators, and
the items of the lists that are still open. Every step keeps this up, for any
condition on bodies that holds wherever the reader closes one.
-/

open Grammar

variable {options : ReadingOptions} {Body : List Token → List Token → Prop}
variable {first tokens middle rest : List Token} {outer : List Level}

/-- Items have been read, each with the comma behind it. -/
def ItemsRead
    (options : ReadingOptions)
    (Body : List Token → List Token → Prop)
    (items : List Term)
    (tokens rest : List Token) : Prop :=
  items = [] ∧ tokens = rest ∨
    Derives options Body .list tokens (.comma :: rest) (.tuple items)

theorem ItemsRead.further
    {items : List Term}
    {item : Term}
    (read : ItemsRead options Body items tokens middle)
    (derives : Derives options Body .equivalence middle rest item) :
    Derives options Body .list tokens rest (.tuple (items ++ [item])) := by
  rcases read with ⟨rfl, rfl⟩ | derivesItems
  · exact .single derives
  · exact .further derivesItems derives

/-- The tokens of a list or group that is open, up to its current item. -/
inductive Opens
    (options : ReadingOptions)
    (Body : List Token → List Token → Prop) :
    Opening → List Token → List Token → Prop where
  | group
      {items : List Term}
      {tokens rest : List Token}
      (read : ItemsRead options Body items tokens rest) :
      Opens options Body (.group items) (.openParenthesis :: tokens) rest
  | call
      {function : Term}
      {arguments : List Term}
      {tokens behind rest : List Token}
      (derives :
        Derives options Body .application tokens (.openParenthesis :: behind) function)
      (read : ItemsRead options Body arguments behind rest) :
      Opens options Body (.call function arguments) tokens rest
  | bracket {rest : List Token} :
      Opens options Body .bracket (.openBracket :: rest) rest

theorem Opens.comma
    {opening : List Term → Opening}
    {closed : List Term → Term}
    {items : List Term}
    {item : Term}
    (lists : Lists opening closed)
    (opens : Opens options Body (opening items) tokens middle)
    (derives : Derives options Body .equivalence middle (.comma :: rest) item) :
    Opens options Body (opening (items ++ [item])) tokens rest := by
  cases lists with
  | group =>
      cases opens with
      | group read =>
          exact .group (.inr (read.further derives))
  | call function =>
      cases opens with
      | call derivesFunction read =>
          exact .call derivesFunction (.inr (read.further derives))

theorem Opens.close
    {opening : List Term → Opening}
    {closed : List Term → Term}
    {items : List Term}
    {item : Term}
    (lists : Lists opening closed)
    (opens : Opens options Body (opening items) tokens middle)
    (derives : Derives options Body .equivalence middle (.closeParenthesis :: rest) item) :
    Derives options Body .application tokens rest (closed (items ++ [item])) := by
  cases lists with
  | group =>
      cases opens with
      | group read =>
          exact .tighter rfl (.group (read.further derives))
  | call function =>
      cases opens with
      | call derivesFunction read =>
          exact .app derivesFunction (read.further derives)

/-- All levels that are open, from the first token to the start of the current item. -/
inductive Encloses
    (options : ReadingOptions)
    (Body : List Token → List Token → Prop)
    (first : List Token) :
    List Level → List Token → Prop where
  | nil : Encloses options Body first [] first
  | cons
      {level : Level}
      {outer : List Level}
      {tokens middle rest : List Token}
      (encloses : Encloses options Body first outer tokens)
      (pends : Pends options Body first outer level.pending tokens middle)
      (opens : Opens options Body level.opening middle rest) :
      Encloses options Body first (level :: outer) rest

/-- What the reader has read since the last pending operator. -/
def Mode.Stands
    (options : ReadingOptions)
    (Body : List Token → List Token → Prop)
    (tokens rest : List Token) :
    Mode → Prop
  | .operand => tokens = rest
  | .binding binder bound =>
      ∃ names,
        List.Forall₂ (Binds options) names bound ∧
          ∀ more body,
            rest = namesAndDot more body → names ++ more ≠ [] →
              Heads options binder (names ++ more) tokens body
  | .operator last => Derives options Body .application tokens rest last

/-- What the reader has read from the first token on is derived. -/
def Configuration.Derived
    (options : ReadingOptions)
    (Body : List Token → List Token → Prop)
    (first : List Token)
    (configuration : Configuration) : Prop :=
  ∃ level operand,
    Encloses options Body first configuration.state.outer level ∧
      Pends options Body first configuration.state.outer configuration.state.pending
          level operand ∧
        configuration.state.mode.Stands options Body operand configuration.ahead

/-- Nothing comes next, or a comma, or what closes parentheses or brackets. -/
def EndsExpression (ahead : List Token) : Prop :=
  ∀ token ∈ ahead.head?,
    token = .comma ∨ token = .closeParenthesis ∨ token = .closeBracket

section Stuck

variable {last : Term} {pending : List Pending} {next : Configuration}

/-- Behind an expression that is read by itself, the reader is stuck where expressions end. -/
theorem not_step_of_endsExpression
    (ends : EndsExpression rest) :
    ¬ Step options ⟨⟨.operator last, pending, []⟩, rest⟩ next := by
  intro step
  cases step with
  | openCall | connective =>
      simp [EndsExpression] at ends
  | sign isSign =>
      cases isSign <;> simp [EndsExpression] at ends

/-- Behind a body without a left side in it, no sign may follow. -/
theorem not_step_sign
    {token : Token}
    {comparison : Term → Pending}
    (isSign : Sign token comparison)
    (closed : completeToRelation false last pending = none) :
    ¬ Step options ⟨⟨.operator last, pending, []⟩, token :: rest⟩ next := by
  intro step
  cases isSign with
  | equation | relation =>
      cases step with
      | sign _ completed =>
          rw [closed] at completed
          cases completed

end Stuck

/--
Bodies end where the reader closes them: where it would be stuck if it had read
the body by itself.
-/
def EndsWhereStuck
    (options : ReadingOptions)
    (Body : List Token → List Token → Prop)
    (first : List Token) : Prop :=
  ∀ binder bound outside outer body deeper last rest term,
    Follows options ⟨start, first⟩ ⟨⟨.operand, .binder binder bound :: outside, outer⟩, body⟩ →
      Follows options ⟨start, first⟩
          ⟨⟨.operator last, deeper ++ .binder binder bound :: outside, outer⟩, rest⟩ →
        Derives options Body .equivalence body rest term →
          (∀ next, ¬ Step options ⟨⟨.operator last, deeper, []⟩, rest⟩ next) →
            Body body rest

theorem EndsWhereStuck.mayEnd
    {binder : Binder}
    {bound : List Identifier}
    {pending deeper outside : List Pending}
    {last : Term}
    (endsWhereStuck : EndsWhereStuck options Body first)
    (reached : Follows options ⟨start, first⟩ ⟨⟨.operator last, pending, outer⟩, rest⟩)
    (isPending : pending = deeper ++ .binder binder bound :: outside)
    (stuck : ∀ next, ¬ Step options ⟨⟨.operator last, deeper, []⟩, rest⟩ next) :
    MayEnd options Body first outer (.binder binder bound :: outside) rest := by
  subst isPending
  intro body term begun derives
  exact endsWhereStuck binder bound outside outer body deeper last rest term begun reached
    derives stuck

/-- Where expressions end, all pending operators of the level are an expression. -/
theorem Pends.item
    {pending : List Pending}
    {last : Term}
    (pends : Pends options Body first outer pending tokens middle)
    (endsWhereStuck : EndsWhereStuck options Body first)
    (derives : Derives options Body .application middle rest last)
    (reached : Follows options ⟨start, first⟩ ⟨⟨.operator last, pending, outer⟩, rest⟩)
    (ends : EndsExpression rest) :
    Derives options Body .equivalence tokens rest (completeAll last pending) :=
  pends.whole derives fun _ _ _ _ isPending =>
    endsWhereStuck.mayEnd reached isPending fun _ => not_step_of_endsExpression ends

/-- What is complete before a sign becomes the left operand of a pending equation or relation. -/
theorem Pends.sign
    {pending remaining : List Pending}
    {last left : Term}
    {token : Token}
    {comparison : Term → Pending}
    (pends : Pends options Body first outer pending tokens middle)
    (endsWhereStuck : EndsWhereStuck options Body first)
    (derives : Derives options Body .application middle (token :: rest) last)
    (isSign : Sign token comparison)
    (completed : completeToRelation false last pending = some (left, remaining))
    (reached :
      Follows options ⟨start, first⟩ ⟨⟨.operator last, pending, outer⟩, token :: rest⟩)
    (further :
      Follows options ⟨start, first⟩
        ⟨⟨.operand, comparison left :: remaining, outer⟩, rest⟩) :
    Pends options Body first outer (comparison left :: remaining) tokens rest := by
  have tight : false = false → 6 ≤ Category.application.strength := fun _ => by decide
  obtain ⟨inner, rfl, rfl, unary, accepts, closed⟩ :=
    exists_of_completeToRelation tight completed
  obtain ⟨operand, pends, derives⟩ :=
    pends.complete derives nofun (accepts_of_six_le (by decide) _)
      (fun deeper binder bound more isInner =>
        endsWhereStuck.mayEnd reached (by rw [isInner, List.append_assoc]; rfl)
          (fun _ => not_step_sign isSign (closed deeper binder bound more isInner)))
  have isExpression := outermost_ne_list (by decide : Category.application ≠ .list) inner
  have left := derives.loosen .unary isExpression unary
  cases isSign with
  | equation =>
      exact .cons pends accepts (.equation left) further
  | relation =>
      exact .cons pends accepts (.relation left) further

/-- What is complete before a connective becomes its left operand. -/
theorem Pends.connective
    {pending remaining : List Pending}
    {last left : Term}
    {connective : Connective}
    (pends : Pends options Body first outer pending tokens middle)
    (derives : Derives options Body .application middle (.connective connective :: rest) last)
    (completed : completeDown connective.leftStrength last pending = (left, remaining))
    (further :
      Follows options ⟨start, first⟩
        ⟨⟨.operand, .connective connective left :: remaining, outer⟩, rest⟩) :
    Pends options Body first outer (.connective connective left :: remaining) tokens rest := by
  obtain ⟨inner, rfl, rfl, strong, weak⟩ := exists_of_completeDown completed
  obtain ⟨operand, pends, derives⟩ :=
    pends.complete derives nofun (accepts_of_six_le (by decide) _)
      (fun deeper binder bound more isInner => by
        have notLooser := strong (.binder binder bound) (by simp [isInner])
        exact (Nat.not_le.mpr (Category.leftStrength_pos connective) notLooser).elim)
  have isExpression := outermost_ne_list (by decide : Category.application ≠ .list) inner
  have left := derives.loosen (.leftOf connective) isExpression (by
    rw [Category.strength_leftOf]
    exact le_strength_outermost (Category.leftStrength_le connective) strong)
  exact .cons pends (accepts_of_weak weak) (.connective left) further

theorem namesAndDot_inj
    {names others : List String}
    {body other : List Token}
    (same : namesAndDot names body = namesAndDot others other) :
    names = others ∧ body = other := by
  induction names generalizing others with
  | nil =>
      cases others with
      | nil =>
          exact ⟨rfl, (List.cons.inj same).2⟩
      | cons =>
          cases same
  | cons name names inductionHypothesis =>
      cases others with
      | nil =>
          cases same
      | cons other others =>
          obtain ⟨isName, further⟩ := List.cons.inj same
          cases isName
          obtain ⟨rfl, rfl⟩ := inductionHypothesis further
          exact ⟨rfl, rfl⟩

section Steps

variable {configuration next : Configuration}

/-- A step keeps up that what was read is derived. -/
theorem Configuration.Derived.step
    (endsWhereStuck : EndsWhereStuck options Body first)
    (derived : configuration.Derived options Body first)
    (reached : Follows options ⟨start, first⟩ configuration)
    (step : Step options configuration next) :
    next.Derived options Body first := by
  obtain ⟨level, operand, encloses, pends, stands⟩ := derived
  have further := reached.tail step
  cases step with
  | negation =>
      cases stands
      exact ⟨level, _, encloses,
        .cons pends (accepts_of_six_le (Nat.le_refl _) _) .negation further, rfl⟩
  | symbol =>
      cases stands
      refine ⟨level, _, encloses, pends, [], .nil, ?_⟩
      rintro more body rfl nonempty
      exact .symbol nonempty
  | @letter _ _ _ _ _ fused _ _ isLetter binds =>
      cases stands
      refine ⟨level, _, encloses, pends, fused, binds, fun more body ahead _ => ?_⟩
      obtain ⟨rfl, rfl⟩ := namesAndDot_inj ahead
      exact .letter isLetter
  | name noBinder known =>
      cases stands
      exact ⟨level, _, encloses, pends, .tighter rfl (.name noBinder known)⟩
  | openGroup =>
      cases stands
      exact ⟨_, _, .cons encloses pends (.group (.inl ⟨rfl, rfl⟩)), .nil, rfl⟩
  | openBracket =>
      cases stands
      exact ⟨_, _, .cons encloses pends .bracket, .nil, rfl⟩
  | bound bindsNext =>
      obtain ⟨names, binds, heads⟩ := stands
      refine ⟨level, operand, encloses, pends, _,
        List.rel_append binds (.cons bindsNext .nil), ?_⟩
      rintro more body rfl nonempty
      have again := heads (_ :: more) body rfl (by simp)
      rwa [List.append_assoc]
  | dot nonempty =>
      obtain ⟨names, binds, heads⟩ := stands
      have named : names ++ [] ≠ [] := by
        rw [List.append_nil]
        rintro rfl
        exact nonempty (List.forall₂_nil_left_iff.mp binds)
      have heads := heads [] _ rfl named
      rw [List.append_nil] at heads
      exact ⟨level, _, encloses,
        .cons pends (accepts_of_six_le (Nat.le_refl _) _) (.binder heads binds) further, rfl⟩
  | openCall =>
      exact ⟨_, _, .cons encloses pends (.call stands (.inl ⟨rfl, rfl⟩)), .nil, rfl⟩
  | sign isSign completed =>
      exact ⟨level, _, encloses,
        pends.sign endsWhereStuck stands isSign completed reached further, rfl⟩
  | connective completed =>
      exact ⟨level, _, encloses, pends.connective stands completed further, rfl⟩
  | comma lists =>
      have item := pends.item endsWhereStuck stands reached (by simp [EndsExpression])
      cases encloses with
      | cons encloses pends opens =>
          exact ⟨_, _, .cons encloses pends (opens.comma lists item), .nil, rfl⟩
  | closeParenthesis lists =>
      have item := pends.item endsWhereStuck stands reached (by simp [EndsExpression])
      cases encloses with
      | cons encloses pends opens =>
          exact ⟨_, _, encloses, pends, opens.close lists item⟩
  | closeBracket =>
      have item := pends.item endsWhereStuck stands reached (by simp [EndsExpression])
      cases encloses with
      | cons encloses pends opens =>
          cases opens
          exact ⟨_, _, encloses, pends, .tighter rfl (.bracket item)⟩

/-- A run keeps up that what was read is derived. -/
theorem derived_of_follows
    (endsWhereStuck : EndsWhereStuck options Body first)
    (follows : Follows options ⟨start, first⟩ configuration) :
    configuration.Derived options Body first := by
  induction follows with
  | refl =>
      exact ⟨first, first, .nil, .nil, rfl⟩
  | tail before step inductionHypothesis =>
      exact inductionHypothesis.step endsWhereStuck before step

end Steps

section Whole

variable {last : Term} {pending : List Pending}

/-- The reader has only read expressions, wherever it comes by with no list or group open. -/
theorem derives_any_of_follows
    (follows : Follows options ⟨start, first⟩ ⟨⟨.operator last, pending, []⟩, rest⟩) :
    Derives options AnyBody .equivalence first rest (completeAll last pending) := by
  have anywhere : EndsWhereStuck options AnyBody first :=
    fun _ _ _ _ _ _ _ _ _ _ _ _ _ => trivial
  obtain ⟨level, operand, encloses, pends, stands⟩ := derived_of_follows anywhere follows
  cases encloses
  exact pends.whole stands fun _ _ _ _ _ _ _ _ _ => trivial

/-- A whole run has read an expression. -/
theorem derives_of_follows_end
    (endsWhereStuck : EndsWhereStuck options Body first)
    (follows : Follows options ⟨start, first⟩ ⟨⟨.operator last, pending, []⟩, []⟩) :
    Derives options Body .equivalence first [] (completeAll last pending) := by
  obtain ⟨level, operand, encloses, pends, stands⟩ :=
    derived_of_follows endsWhereStuck follows
  cases encloses
  exact pends.item endsWhereStuck stands follows (by simp [EndsExpression])

end Whole

end TypedLambda.Term.Reader
