import TypedLambda.Proofs.Term.PrintedTokens
import TypedLambda.Proofs.Term.Readable
import TypedLambda.Proofs.Term.Reads

namespace TypedLambda.Term

/-!
# Reading printed terms

The reader makes of the tokens of a printed term the term itself, wherever
they stand: as an operand behind operators that demand no more than the term's
strength, or as an argument behind a function.
-/

open Reader

variable {options : ReadingOptions} {symbols : SymbolSet}

/-- The tokens of a term, as it is printed under the options. -/
abbrev tokensUnder
    (options : ReadingOptions)
    (symbols : SymbolSet)
    (term : Term) :
    List Token :=
  term.tokens symbols options.style

/-- The tokens of a term are an operand, if the term is as strong as the place demands. -/
def ReadsAsOperand
    (options : ReadingOptions)
    (symbols : SymbolSet)
    (term : Term) : Prop :=
  ∀ pending outer after,
    Accepts pending term.strength → Ends after →
      Supplies options (term.tokensUnder options symbols) after term.strength
        term pending outer

/-- The tokens of a term are read as the term. -/
structure ReadsBack
    (options : ReadingOptions)
    (symbols : SymbolSet)
    (term : Term) : Prop where
  /-- As an operand. -/
  operand : ReadsAsOperand options symbols term
  /-- As the argument of a function. -/
  argument :
    ∀ function pending outer after,
      Reads options (argumentTokens term (term.tokensUnder options symbols)) after
        ⟨.operator function, pending, outer⟩
        ⟨.operator (.app function term), pending, outer⟩

/-- A symbol other than a dot comes next. -/
theorem ends_cons
    (token : Token)
    (notDot : token ≠ .dot)
    (notName : ∀ name, token ≠ .identifier name)
    (rest : List Token) :
    Ends (token :: rest) := by
  intro first isFirst
  obtain rfl : token = first := by simpa using isFirst
  exact ⟨notDot, notName⟩

/-- Items in parentheses are collected until the closing parenthesis. -/
structure Collects
    (opening : List Term → Opening)
    (closed : List Term → Term) : Prop where
  comma :
    ∀ items last pending outside outer options position rest,
      State.step ⟨.operator last, pending, ⟨opening items, outside⟩ :: outer⟩
          options ⟨.comma, position⟩ rest =
        .ok ⟨.operand, [],
          ⟨opening (items ++ [completeAll last pending]), outside⟩ :: outer⟩
  close :
    ∀ items last pending outside outer options position rest,
      State.step ⟨.operator last, pending, ⟨opening items, outside⟩ :: outer⟩
          options ⟨.closeParenthesis, position⟩ rest =
        .ok ⟨.operator (closed (items ++ [completeAll last pending])), outside, outer⟩

theorem collects_group : Collects .group collect :=
  ⟨fun _ _ _ _ _ _ _ _ => rfl, fun _ _ _ _ _ _ _ _ => rfl⟩

theorem collects_call (function : Term) :
    Collects (.call function) fun arguments => .app function (collect arguments) :=
  ⟨fun _ _ _ _ _ _ _ _ => rfl, fun _ _ _ _ _ _ _ _ => rfl⟩

/-- A term at the start of parentheses or brackets is complete where they go on. -/
theorem ReadsAsOperand.inside
    {term : Term}
    (operand : ReadsAsOperand options symbols term)
    {outer : List Level}
    {next : State}
    {token : Token}
    {after : List Token}
    (notDot : token ≠ .dot)
    (notName : ∀ name, token ≠ .identifier name)
    (continues :
      ∀ last pending, completeAll last pending = term →
        ∀ position rest,
          State.step ⟨.operator last, pending, outer⟩ options ⟨token, position⟩ rest =
            .ok next) :
    Reads options (term.tokensUnder options symbols ++ [token]) after
      ⟨.operand, [], outer⟩ next := by
  obtain ⟨last, pending, reads, isTerm, _⟩ :=
    operand [] outer (token :: after) nofun (ends_cons token notDot notName _)
  rw [List.append_nil] at reads
  exact reads.append (.single fun position rest _ =>
    continues last pending isTerm position rest)

/-- Items behind an opening parenthesis are read up to the closing one. -/
theorem reads_items
    {opening : List Term → Opening}
    {closed : List Term → Term}
    (collects : Collects opening closed)
    {first : Term}
    {further : List Term}
    (inFirst : ReadsBack options symbols first)
    (inFurther : ∀ item ∈ further, ReadsBack options symbols item)
    (items : List Term)
    (pending : List Pending)
    (outer : List Level)
    (after : List Token) :
    Reads options
      (first.tokensUnder options symbols ++
        (furtherTokens symbols options.style further ++ [.closeParenthesis]))
      after
      ⟨.operand, [], ⟨opening items, pending⟩ :: outer⟩
      ⟨.operator (closed (items ++ first :: further)), pending, outer⟩ := by
  induction further generalizing first items with
  | nil =>
      refine inFirst.operand.inside nofun nofun fun last operators isFirst position rest => ?_
      rw [collects.close, isFirst]
  | cons next others inductionHypothesis =>
      rw [List.forall_mem_cons] at inFurther
      have later :=
        inductionHypothesis inFurther.1 inFurther.2 (items ++ [first])
      have separated :
          Reads options (first.tokensUnder options symbols ++ [.comma])
            (next.tokensUnder options symbols ++
              (furtherTokens symbols options.style others ++ [.closeParenthesis]) ++
                after)
            ⟨.operand, [], ⟨opening items, pending⟩ :: outer⟩
            ⟨.operand, [], ⟨opening (items ++ [first]), pending⟩ :: outer⟩ := by
        refine inFirst.operand.inside nofun nofun fun last operators isFirst position rest => ?_
        rw [collects.comma, isFirst]
      have whole := separated.append later
      simpa [furtherTokens] using whole

section Parts

variable {term : Term} {pending : List Pending} {outer : List Level} {after : List Token}

/-- A term in parentheses is an operand for any place. -/
theorem ReadsBack.parenthesized
    (readsBack : ReadsBack options symbols term) :
    Reads options
      (.openParenthesis :: term.tokensUnder options symbols ++ [.closeParenthesis]) after
      ⟨.operand, pending, outer⟩ ⟨.operator term, pending, outer⟩ := by
  refine .cons ⟨.operand, [], ⟨.group [], pending⟩ :: outer⟩ (fun _ _ _ => rfl) ?_
  refine readsBack.operand.inside nofun nofun fun last operators isTerm position rest => ?_
  rw [← isTerm]
  rfl

/-- An operand supplies its place, in parentheses or without. -/
theorem ReadsBack.supplies
    (readsBack : ReadsBack options symbols term)
    {demanded : Nat}
    (accepts : Accepts pending demanded)
    (ends : Ends after) :
    Supplies options
      (operandTokens demanded term (term.tokensUnder options symbols)) after demanded
      term pending outer := by
  unfold operandTokens
  split
  · exact .whole readsBack.parenthesized
  · next strong =>
      have enough : demanded ≤ term.strength := Nat.not_lt.mp strong
      obtain ⟨last, operators, reads, isTerm, bound⟩ :=
        readsBack.operand pending outer after (accepts.mono enough) ends
      exact ⟨last, operators, reads, isTerm, fun operator member =>
        Nat.le_trans enough (bound operator member)⟩

/-- A function is complete in front of its argument. -/
theorem ReadsBack.function
    (readsBack : ReadsBack options symbols term)
    (accepts : Accepts pending 7)
    (ends : Ends after) :
    Reads options
      (functionTokens term (term.tokensUnder options symbols)) after
      ⟨.operand, pending, outer⟩ ⟨.operator term, pending, outer⟩ := by
  have bracketed :
      Reads options
        (.openBracket :: (term.tokensUnder options symbols ++ [.closeBracket])) after
        ⟨.operand, pending, outer⟩ ⟨.operator term, pending, outer⟩ := by
    refine .cons ⟨.operand, [], ⟨.bracket, pending⟩ :: outer⟩ (fun _ _ _ => rfl) ?_
    refine readsBack.operand.inside nofun nofun fun last operators isTerm position rest => ?_
    rw [← isTerm]
    rfl
  cases term with
  | var | const | app =>
      exact (readsBack.operand pending outer after accepts ends).reads
  | _ =>
      exact bracketed

/-- A term that is no tuple is an argument in parentheses of its own. -/
theorem ReadsBack.of_operand
    (notTuple : ∀ items, term ≠ .tuple items)
    (operand : ReadsAsOperand options symbols term) :
    ReadsBack options symbols term := by
  refine ⟨operand, fun function pending outer after => ?_⟩
  have parenthesized :
      Reads options
        (.openParenthesis :: (term.tokensUnder options symbols ++ [.closeParenthesis]))
        after
        ⟨.operator function, pending, outer⟩
        ⟨.operator (.app function term), pending, outer⟩ := by
    refine .cons ⟨.operand, [], ⟨.call function [], pending⟩ :: outer⟩
      (fun _ _ _ => rfl) ?_
    refine operand.inside nofun nofun fun last operators isTerm position rest => ?_
    rw [← isTerm]
    rfl
  cases term with
  | tuple items =>
      exact (notTuple items rfl).elim
  | _ =>
      exact parenthesized

/-- A binder with its variable and the dot is read before the body. -/
theorem reads_binder
    (allowed : symbols = .plain → options.letterBinders = true)
    (binder : Binder)
    {bound : Identifier}
    (admits : options.Admits .variable bound) :
    Reads options (binder.tokens symbols options.style bound.name) after
      ⟨.operand, pending, outer⟩
      ⟨.operand, .binder binder [bound] :: pending, outer⟩ := by
  have found := admits.boundVariable
  unfold Binder.tokens
  split
  · exact .cons ⟨.binding binder [], pending, outer⟩ (fun _ _ _ => rfl) (.bound found)
  · exact (Reads.letter (allowed rfl)).append (.bound found)
  · obtain ⟨first, more, spelled, letter, _, _⟩ := Token.isName_iff.mp admits.1
    exact .fused (allowed rfl) found spelled letter

end Parts

/-- An argument starts with a parenthesis. -/
theorem exists_argumentTokens_eq_cons
    (options : ReadingOptions)
    (symbols : SymbolSet)
    (term : Term) :
    ∃ more,
      argumentTokens term (term.tokensUnder options symbols) =
        .openParenthesis :: more := by
  cases term with
  | tuple items =>
      cases items <;> exact ⟨_, rfl⟩
  | _ =>
      exact ⟨_, rfl⟩

/-- Several items in parentheses are read as the tuple, or as the argument that it is. -/
theorem readsBack_tuple
    {first : Term}
    {others : List Term}
    (firstBack : ReadsBack options symbols first)
    (othersBack : ∀ item ∈ others, ReadsBack options symbols item)
    (several : others ≠ []) :
    ReadsBack options symbols (.tuple (first :: others)) := by
  have collected : collect (first :: others) = .tuple (first :: others) := by
    cases others with
    | nil =>
        exact (several rfl).elim
    | cons second others =>
        rfl
  have spelled :
      (Term.tuple (first :: others)).tokensUnder options symbols =
        .openParenthesis ::
          (first.tokensUnder options symbols ++
            (furtherTokens symbols options.style others ++ [.closeParenthesis])) := by
    simp [tokensUnder, tokens]
  constructor
  · intro pending outer after _ _
    refine .whole ?_
    rw [spelled]
    refine .cons ⟨.operand, [], ⟨.group [], pending⟩ :: outer⟩ (fun _ _ _ => rfl) ?_
    have reads :=
      reads_items collects_group firstBack othersBack [] pending outer after
    rwa [List.nil_append, collected] at reads
  · intro function pending outer after
    rw [argumentTokens, spelled]
    refine .cons ⟨.operand, [], ⟨.call function [], pending⟩ :: outer⟩
      (fun _ _ _ => rfl) ?_
    have reads :=
      reads_items (collects_call function) firstBack othersBack [] pending outer after
    rwa [List.nil_append, collected] at reads

/-- Operands with a connective between them are read as the whole. -/
theorem readsBack_connect
    {connective : Connective}
    {left right : Term}
    (leftBack : ReadsBack options symbols left)
    (rightBack : ReadsBack options symbols right) :
    ReadsBack options symbols (.connect connective left right) := by
  refine .of_operand (by simp) fun pending outer after accepts ends => ?_
  have sameStrength :
      (Term.connect connective left right).strength =
        (Pending.connective connective left).strength := by
    cases connective <;> rfl
  have weakLeft :
      (Term.connect connective left right).strength ≤ connective.leftStrength := by
    cases connective <;> simp [strength, Connective.leftStrength]
  rw [sameStrength]
  refine .binary
    (leftBack.supplies (accepts.mono weakLeft)
      (ends_cons (.connective connective) (by simp) (by simp) _))
    (fun last operators strong isLeft position rest => ?_)
    (rightBack.supplies (accepts_cons _) ends)
  have completed :
      completeDown connective.leftStrength last (operators ++ pending) =
        (left, pending) := by
    rw [completeDown_append strong accepts, isLeft]
  simp only [State.step, State.continueOperand, completed]

/-- Sides with a sign between them are read as the equation or relation. -/
theorem supplies_comparison
    {left right : Term}
    (token : Token)
    (comparison : Term → Pending)
    (isComparison : (comparison left).strength = 5)
    (demands : (comparison left).operandStrength = 6)
    (sign :
      ∀ last pending outer position rest,
        State.step ⟨.operator last, pending, outer⟩ options ⟨token, position⟩ rest =
          State.beginRelation ⟨.operator last, pending, outer⟩ last comparison
            ⟨token, position⟩)
    (notDot : token ≠ .dot)
    (notName : ∀ name, token ≠ .identifier name)
    (leftBack : ReadsBack options symbols left)
    (rightBack : ReadsBack options symbols right)
    {pending : List Pending}
    {outer : List Level}
    {after : List Token}
    (accepts : Accepts pending 5)
    (ends : Ends after) :
    Supplies options
      (operandTokens 6 left (left.tokensUnder options symbols) ++
        token :: operandTokens 6 right (right.tokensUnder options symbols))
      after 5 ((comparison left).complete right) pending outer := by
  have rightSupplies :
      Supplies options
        (operandTokens (comparison left).operandStrength right
          (right.tokensUnder options symbols))
        after (comparison left).operandStrength right
        (comparison left :: pending) outer :=
    rightBack.supplies (accepts_cons _) ends
  have whole :=
    Supplies.binary
      (leftBack.supplies (accepts.mono (by decide : 5 ≤ 6))
        (ends_cons token notDot notName _))
      (fun last operators strong isLeft position rest => by
        have completed :
            completeToRelation false last (operators ++ pending) =
              some (left, pending) := by
          rw [completeToRelation_append strong accepts, isLeft]
        simp only [sign, State.beginRelation, completed])
      rightSupplies
  rw [isComparison, demands] at whole
  exact whole

/-- The tokens of a readable term are read as the term. -/
theorem Readable.readsBack
    {term : Term}
    (readable : term.Readable options)
    (allowed : symbols = .plain → options.letterBinders = true) :
    ReadsBack options symbols term := by
  induction term with
  | var identifier =>
      refine .of_operand (by simp) fun pending outer after _ ends => .whole ?_
      exact .identifier readable.identifierTerm_variable ends
  | const identifier =>
      refine .of_operand (by simp) fun pending outer after _ ends => .whole ?_
      exact .identifier readable.identifierTerm_constant ends
  | bind binder bound body inductionHypothesis =>
      obtain ⟨admits, readableBody⟩ := readable
      have bodyBack := inductionHypothesis readableBody
      refine .of_operand (by simp) fun pending outer after _ ends => ?_
      have inBody :
          Supplies options (body.tokensUnder options symbols) after 0 body
            (.binder binder [bound] :: pending) outer := by
        obtain ⟨last, operators, reads, isBody, _⟩ :=
          bodyBack.operand (.binder binder [bound] :: pending) outer after
            ((accepts_cons _).mono (Nat.zero_le _)) ends
        exact ⟨last, operators, reads, isBody, fun _ _ => Nat.zero_le _⟩
      exact .unary (reads_binder allowed binder admits) inBody
  | app function argument functionHypothesis argumentHypothesis =>
      have functionBack := functionHypothesis readable.1
      have argumentBack := argumentHypothesis readable.2
      refine .of_operand (by simp) fun pending outer after accepts ends => .whole ?_
      refine (functionBack.function accepts ?_).append
        (argumentBack.argument function pending outer after)
      obtain ⟨more, opened⟩ := exists_argumentTokens_eq_cons options symbols argument
      rw [opened]
      exact ends_cons .openParenthesis (by simp) (by simp) _
  | tuple items inductionHypothesis =>
      simp only [Readable, allReadable_iff_forall] at readable
      obtain ⟨severalItems, readableItems⟩ := readable
      have inItem (item : Term) (member : item ∈ items) :
          ReadsBack options symbols item :=
        inductionHypothesis item member (readableItems item member)
      cases items with
      | nil =>
          simp at severalItems
      | cons first others =>
          have several : others ≠ [] := by
            intro isNil
            subst isNil
            simp at severalItems
          rw [List.forall_mem_cons] at inItem
          exact readsBack_tuple inItem.1 inItem.2 several
  | neg operand inductionHypothesis =>
      have operandBack := inductionHypothesis readable
      refine .of_operand (by simp) fun pending outer after accepts ends => ?_
      have negates :
          Reads options [.negation]
            (operandTokens 6 operand (operand.tokensUnder options symbols) ++ after)
            ⟨.operand, pending, outer⟩ ⟨.operand, .negation :: pending, outer⟩ :=
        .single fun _ _ _ => rfl
      exact .unary negates
        (operandBack.supplies (accepts_cons .negation) ends)
  | connect connective left right leftHypothesis rightHypothesis =>
      exact readsBack_connect (leftHypothesis readable.1) (rightHypothesis readable.2)
  | equal left right leftHypothesis rightHypothesis =>
      have leftBack := leftHypothesis readable.1
      have rightBack := rightHypothesis readable.2
      refine .of_operand (by simp) fun pending outer after accepts ends => ?_
      exact supplies_comparison .equals .equation rfl rfl
        (fun _ _ _ _ _ => rfl) (by simp) (by simp) leftBack rightBack accepts ends
  | relate relation left right leftHypothesis rightHypothesis =>
      have leftBack := leftHypothesis readable.1
      have rightBack := rightHypothesis readable.2
      refine .of_operand (by simp) fun pending outer after accepts ends => ?_
      exact supplies_comparison (.relation relation) (.relation relation) rfl rfl
        (fun _ _ _ _ _ => rfl) (by simp) (by simp) leftBack rightBack accepts ends

end TypedLambda.Term
