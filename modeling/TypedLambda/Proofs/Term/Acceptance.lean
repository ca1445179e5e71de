import TypedLambda.Proofs.Term.ReaderRuns

namespace TypedLambda.Term.Reader

/-!
# What is derived is read

The reader gets through everything that the grammar derives, wherever the
derivation lets the bodies of binders end. It may keep a body open that the
derivation has closed. So it is not stuck at the sign of an equation or a set
relation, because for every place that the derivation has left for a left side,
there is one in front of it.
-/

open Grammar

variable {options : ReadingOptions} {tokens rest : List Token}

/--
For each body that is open, innermost first, and then for the whole: whether
what was read of it can still become the left side of an equation or a set
relation.
-/
def vacancies : List Pending → List Bool
  | [] => [true]
  | .negation :: rest => vacancies rest
  | .equation _ :: rest => false :: (vacancies rest).tail
  | .relation _ _ :: rest => false :: (vacancies rest).tail
  | .connective _ _ :: rest => true :: (vacancies rest).tail
  | .binder _ _ :: rest => true :: vacancies rest

/-- Where a place is demanded, there is one. -/
def Covers (demanded vacant : Bool) : Prop :=
  demanded = true → vacant = true

/-- The pending operators have the demanded places, and possibly others between them. -/
def Offers (pending : List Pending) (demanded : List Bool) : Prop :=
  List.SublistForall₂ Covers demanded (vacancies pending)

section Vacancies

variable {pending remaining : List Pending} {demanded : List Bool} {last left : Term}

theorem sublist_of_cons
    {first : Bool}
    {vacant : List Bool}
    (sublist : List.SublistForall₂ Covers (first :: demanded) vacant) :
    List.SublistForall₂ Covers demanded vacant := by
  induction vacant with
  | nil =>
      cases sublist
  | cons other vacant inductionHypothesis =>
      cases sublist with
      | cons _ others =>
          exact .cons_right others
      | cons_right others =>
          exact .cons_right (inductionHypothesis others)

theorem sublist_tail_of_cons
    {first : Bool}
    {vacant : List Bool}
    (sublist : List.SublistForall₂ Covers (first :: demanded) vacant) :
    List.SublistForall₂ Covers demanded vacant.tail := by
  cases sublist with
  | cons _ others =>
      exact others
  | cons_right others =>
      exact sublist_of_cons others

theorem Offers.of_cons
    {first : Bool}
    (offers : Offers pending (first :: demanded)) :
    Offers pending demanded :=
  sublist_of_cons offers

/-- A place need not be used. -/
theorem Offers.spend
    {first : Bool}
    (offers : Offers pending (first :: demanded)) :
    Offers pending (false :: demanded) := by
  unfold Offers at offers ⊢
  generalize vacancies pending = vacant at offers ⊢
  induction vacant with
  | nil =>
      cases offers
  | cons other vacant inductionHypothesis =>
      cases offers with
      | cons _ others =>
          exact .cons nofun others
      | cons_right others =>
          exact .cons_right (inductionHypothesis others)

theorem offers_nil : Offers [] [true] :=
  .cons id .nil

theorem Offers.binder
    (binder : Binder)
    (bound : List Identifier)
    (offers : Offers pending demanded) :
    Offers (.binder binder bound :: pending) (true :: demanded) :=
  .cons id offers

/-- Operators that are complete before a connective leave the bodies around them open. -/
theorem vacancies_completeDown
    {strength : Nat}
    (positive : 0 < strength)
    (completed : completeDown strength last pending = (left, remaining)) :
    (vacancies remaining).tail = (vacancies pending).tail := by
  induction pending generalizing last with
  | nil =>
      cases completed
      rfl
  | cons operator pending inductionHypothesis =>
      rw [completeDown] at completed
      split at completed
      · next strong =>
          rw [inductionHypothesis completed]
          cases operator with
          | binder =>
              exact (Nat.not_le.mpr positive strong).elim
          | _ =>
              rfl
      · cases completed
        rfl

/-- After a connective there is a place again. -/
theorem Offers.connective
    {connective : Connective}
    {first : Bool}
    (offers : Offers pending (first :: demanded))
    (completed : completeDown connective.leftStrength last pending = (left, remaining)) :
    Offers (.connective connective left :: remaining) (true :: demanded) := by
  refine .cons id ?_
  rw [vacancies_completeDown (Category.leftStrength_pos connective) completed]
  exact sublist_tail_of_cons offers

/-- Where a place is offered the reader finds it, and the places outside of it stay. -/
theorem exists_completeToRelation
    (isRelation : Bool)
    (offers :
      List.SublistForall₂ Covers (true :: demanded)
        (if isRelation then false :: (vacancies pending).tail else vacancies pending)) :
    ∃ left remaining,
      completeToRelation isRelation last pending = some (left, remaining) ∧
        List.SublistForall₂ Covers demanded (vacancies remaining).tail := by
  have inTail
      {vacant : List Bool}
      (sublist : List.SublistForall₂ Covers (true :: demanded) (false :: vacant)) :
      List.SublistForall₂ Covers (true :: demanded) vacant := by
    cases sublist with
    | cons covers _ =>
        cases covers rfl
    | cons_right others =>
        exact others
  induction pending generalizing isRelation last with
  | nil =>
      cases isRelation with
      | false =>
          exact ⟨_, _, rfl, sublist_tail_of_cons offers⟩
      | true =>
          cases inTail offers
  | cons operator pending inductionHypothesis =>
      cases operator with
      | negation =>
          exact inductionHypothesis isRelation offers
      | equation | relation =>
          refine inductionHypothesis true ?_
          cases isRelation <;> exact offers
      | connective =>
          cases isRelation with
          | false =>
              exact ⟨_, _, rfl, sublist_tail_of_cons offers⟩
          | true =>
              exact inductionHypothesis true offers
      | binder =>
          cases isRelation with
          | false =>
              exact ⟨_, _, rfl, sublist_tail_of_cons offers⟩
          | true =>
              exact inductionHypothesis false (inTail offers)

/-- A sign uses up the innermost place. -/
theorem Offers.sign
    {token : Token}
    {comparison : Term → Pending}
    (isSign : Sign token comparison)
    (offers : Offers pending (true :: demanded)) :
    ∃ left remaining,
      completeToRelation false last pending = some (left, remaining) ∧
        Offers (comparison left :: remaining) (false :: demanded) := by
  obtain ⟨left, remaining, completed, stay⟩ := exists_completeToRelation false offers
  refine ⟨left, remaining, completed, ?_⟩
  cases isSign <;> exact .cons nofun stay

end Vacancies

/--
The tokens are read as an operand, and the places that were offered before turn
into those that are offered behind it.
-/
def Takes
    (options : ReadingOptions)
    (before behind : List Bool → List Bool)
    (tokens rest : List Token) : Prop :=
  ∀ demanded pending outer,
    Offers pending (before demanded) →
      ∃ last remaining,
        Follows options ⟨⟨.operand, pending, outer⟩, tokens⟩
            ⟨⟨.operator last, remaining, outer⟩, rest⟩ ∧
          Offers remaining (behind demanded)

/-- The tokens are read as items in parentheses, the last one not closed yet. -/
def TakesItems (options : ReadingOptions) (tokens rest : List Token) : Prop :=
  ∀ opening closed,
    Lists opening closed →
      ∀ items outside outer,
        ∃ more last pending,
          Follows options ⟨⟨.operand, [], ⟨opening items, outside⟩ :: outer⟩, tokens⟩
            ⟨⟨.operator last, pending, ⟨opening more, outside⟩ :: outer⟩, rest⟩

/--
How expressions of a category are read. An equation or a relation uses up a
place for a left side, and so may everything looser; otherwise all places stay.
-/
def Passes (options : ReadingOptions) : Category → List Token → List Token → Prop
  | .list => TakesItems options
  | .unary => Takes options id id
  | .application => Takes options id id
  | .atom => Takes options id id
  | _ => Takes options (true :: ·) (false :: ·)

theorem passes_ofConnective (connective : Connective) :
    Passes options (.ofConnective connective) = Takes options (true :: ·) (false :: ·) := by
  cases connective <;> rfl

theorem passes_leftOf (connective : Connective) :
    Passes options (.leftOf connective) = Takes options (true :: ·) (false :: ·) := by
  cases connective <;> rfl

theorem passes_rightOf (connective : Connective) :
    Passes options (.rightOf connective) = Takes options (true :: ·) (false :: ·) := by
  cases connective <;> rfl

theorem Takes.spend
    (takes : Takes options id id tokens rest) :
    Takes options (true :: ·) (false :: ·) tokens rest := by
  intro demanded pending outer offers
  obtain ⟨last, remaining, follows, stay⟩ := takes _ pending outer offers
  exact ⟨last, remaining, follows, stay.spend⟩

theorem Takes.connect
    {connective : Connective}
    {behind : List Token}
    (left :
      Takes options (true :: ·) (false :: ·) tokens (.connective connective :: behind))
    (right : Takes options (true :: ·) (false :: ·) behind rest) :
    Takes options (true :: ·) (false :: ·) tokens rest := by
  intro demanded pending outer offers
  obtain ⟨last, remaining, followsLeft, stay⟩ := left _ pending outer offers
  obtain ⟨last, remaining, followsRight, stay⟩ := right _ _ outer (stay.connective rfl)
  exact ⟨last, remaining, (followsLeft.tail (.connective rfl)).trans followsRight, stay⟩

theorem Takes.sign
    {token : Token}
    {comparison : Term → Pending}
    {behind : List Token}
    (isSign : Sign token comparison)
    (left : Takes options id id tokens (token :: behind))
    (right : Takes options id id behind rest) :
    Takes options (true :: ·) (false :: ·) tokens rest := by
  intro demanded pending outer offers
  obtain ⟨last, remaining, followsLeft, stay⟩ := left _ pending outer offers
  obtain ⟨_, _, completed, stay⟩ := Offers.sign isSign stay
  obtain ⟨last, remaining, followsRight, stay⟩ := right _ _ outer stay
  exact ⟨last, remaining,
    (followsLeft.tail (.sign isSign completed)).trans followsRight, stay⟩

/-- What the grammar derives is read. -/
theorem passes_of_derives
    {category : Category}
    {term : Term}
    (derives : Derives options AnyBody category tokens rest term) :
    Passes options category tokens rest := by
  -- In the body of a binder there is a place more, so none is missing behind it.
  induction derives with
  | @tighter category _ _ _ _ isNext _ inductionHypothesis =>
      cases category with
      | relation =>
          cases isNext
          exact inductionHypothesis.spend
      | atom | list =>
          cases isNext
      | _ =>
          cases isNext
          exact inductionHypothesis
  | connect _ _ leftHypothesis rightHypothesis =>
      rw [passes_leftOf] at leftHypothesis
      rw [passes_rightOf] at rightHypothesis
      rw [passes_ofConnective]
      exact leftHypothesis.connect rightHypothesis
  | equal _ _ leftHypothesis rightHypothesis =>
      exact leftHypothesis.sign .equation rightHypothesis
  | relate _ _ leftHypothesis rightHypothesis =>
      exact leftHypothesis.sign (.relation _) rightHypothesis
  | neg _ inductionHypothesis =>
      intro demanded pending outer offers
      obtain ⟨last, remaining, follows, stay⟩ :=
        inductionHypothesis demanded (.negation :: pending) outer offers
      exact ⟨last, remaining, .head .negation follows, stay⟩
  | bind heads binds _ _ inductionHypothesis =>
      intro demanded pending outer offers
      obtain ⟨last, remaining, follows, stay⟩ :=
        inductionHypothesis demanded _ outer (offers.binder _ _)
      exact ⟨last, remaining, (follows_heads heads binds).trans follows, stay.of_cons⟩
  | app _ _ functionHypothesis argumentsHypothesis =>
      intro demanded pending outer offers
      obtain ⟨function, remaining, followsFunction, stay⟩ :=
        functionHypothesis demanded pending outer offers
      obtain ⟨_, _, _, followsArguments⟩ :=
        argumentsHypothesis _ _ (.call function) [] remaining outer
      exact ⟨_, remaining,
        ((followsFunction.tail .openCall).trans followsArguments).tail
          (.closeParenthesis (.call function)), stay⟩
  | name noBinder known =>
      intro demanded pending outer offers
      exact ⟨_, pending, .head (.name noBinder known) .refl, offers⟩
  | group _ inductionHypothesis =>
      intro demanded pending outer offers
      obtain ⟨_, _, _, follows⟩ := inductionHypothesis _ _ .group [] pending outer
      exact ⟨_, pending,
        (Follows.head .openGroup follows).tail (.closeParenthesis .group), offers⟩
  | bracket _ inductionHypothesis =>
      intro demanded pending outer offers
      obtain ⟨_, _, follows, _⟩ :=
        inductionHypothesis [] [] (⟨.bracket, pending⟩ :: outer) offers_nil
      exact ⟨_, pending, (Follows.head .openBracket follows).tail .closeBracket, offers⟩
  | single _ inductionHypothesis =>
      intro opening closed lists items outside outer
      obtain ⟨last, pending, follows, _⟩ :=
        inductionHypothesis [] [] (⟨opening items, outside⟩ :: outer) offers_nil
      exact ⟨items, last, pending, follows⟩
  | further _ _ itemsHypothesis itemHypothesis =>
      intro opening closed lists items outside outer
      obtain ⟨more, item, pending, followsItems⟩ :=
        itemsHypothesis opening closed lists items outside outer
      obtain ⟨last, pending, followsItem, _⟩ :=
        itemHypothesis [] []
          (⟨opening (more ++ [completeAll item pending]), outside⟩ :: outer) offers_nil
      exact ⟨_, last, pending, (followsItems.tail (.comma lists)).trans followsItem⟩

/-- A whole expression is read from the start. -/
theorem exists_follows_of_derives
    {term : Term}
    (derives : Derives options AnyBody .equivalence tokens rest term) :
    ∃ last pending,
      Follows options ⟨start, tokens⟩ ⟨⟨.operator last, pending, []⟩, rest⟩ := by
  obtain ⟨last, pending, follows, _⟩ := passes_of_derives derives [] [] [] offers_nil
  exact ⟨last, pending, follows⟩

end TypedLambda.Term.Reader
