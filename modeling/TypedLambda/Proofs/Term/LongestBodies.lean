import TypedLambda.Proofs.Term.BodyRuns

namespace TypedLambda.Term.Reader

/-!
# Longest bodies

The reader reads a derivation whose bodies are the longest as it is. Where an
operand ends in a body, the operator behind it could go on with the body, if it
had a place there; so more could be derived from where the body starts. Hence a
text is read exactly if it is grammatical, as the term that is derived with the
longest bodies.
-/

open Grammar

variable {options : ReadingOptions} {tokens rest : List Token}
variable {pending operators : List Pending} {last term : Term}
variable {category : Category} {behind : List Token}

/--
The innermost of the operators are those of a body that is the longest, and
that the reader would leave behind if it read the body by itself. The operators
outside of its binder have at least the given strength.
-/
def EndsInBody
    (options : ReadingOptions)
    (strength : Nat)
    (last : Term)
    (operators : List Pending)
    (rest : List Token) : Prop :=
  ∃ deeper binder bound shell body,
    operators = deeper ++ .binder binder bound :: shell ∧
      (∀ operator ∈ shell, strength ≤ operator.strength) ∧
        LongestBody options body rest ∧
          Follows options ⟨start, body⟩ ⟨⟨.operator last, deeper, []⟩, rest⟩

/--
Behind operators that accept the category, the tokens leave the given operand
and operators behind, which make the term.
-/
structure Leaves
    (options : ReadingOptions)
    (category : Category)
    (tokens rest : List Token)
    (term last : Term)
    (operators : List Pending) : Prop where
  reads :
    ∀ pending outer,
      Accepts pending category.strength →
        Follows options ⟨⟨.operand, pending, outer⟩, tokens⟩
          ⟨⟨.operator last, operators ++ pending, outer⟩, rest⟩
  isTerm : completeAll last operators = term
  strong :
    (∀ operator ∈ operators, category.strength ≤ operator.strength) ∨
      category.strength ≤ Category.unary.strength ∧
        EndsInBody options category.strength last operators rest

theorem EndsInBody.mono
    {strength weaker : Nat}
    (inBody : EndsInBody options strength last operators rest)
    (weak : weaker ≤ strength) :
    EndsInBody options weaker last operators rest := by
  obtain ⟨deeper, binder, bound, shell, body, isOperators, strong, longest, alone⟩ := inBody
  exact ⟨deeper, binder, bound, shell, body, isOperators,
    fun operator member => Nat.le_trans weak (strong operator member), longest, alone⟩

theorem EndsInBody.append
    {strength : Nat}
    {operator : Pending}
    (inBody : EndsInBody options strength last operators rest)
    (strong : strength ≤ operator.strength) :
    EndsInBody options strength last (operators ++ [operator]) rest := by
  obtain ⟨deeper, binder, bound, shell, body, rfl, shellStrong, longest, alone⟩ := inBody
  refine ⟨deeper, binder, bound, shell ++ [operator], body, by simp, ?_, longest, alone⟩
  exact List.forall_mem_append.mpr ⟨shellStrong, by simpa using strong⟩

/-- A body is not the longest if the reader can go on with an operator and its last operand. -/
theorem not_longestBody_of_step
    {before behind : List Bool → List Bool}
    {token : Token}
    {body further rest : List Token}
    {deeper remaining : List Pending}
    {demanded : List Bool}
    (longest : LongestBody options body (token :: further))
    (alone : Follows options ⟨start, body⟩ ⟨⟨.operator last, deeper, []⟩, token :: further⟩)
    (step :
      Step options ⟨⟨.operator last, deeper, []⟩, token :: further⟩
        ⟨⟨.operand, remaining, []⟩, further⟩)
    (takes : Takes options before behind further rest)
    (offers : Offers remaining (before demanded)) :
    False := by
  obtain ⟨_, _, operand, _⟩ := takes demanded remaining [] offers
  have longer := derives_any_of_follows ((alone.tail step).trans operand)
  have bound := longest _ _ longer
  have shorter : rest.length ≤ further.length := operand.length_ahead_le
  rw [List.length_cons] at bound
  omega

/-- A longest body has no left side in it if a sign and an operand follow. -/
theorem completeToRelation_eq_none_of_longestBody
    {token : Token}
    {comparison : Term → Pending}
    {body further rest : List Token}
    {deeper : List Pending}
    {right : Term}
    (isSign : Sign token comparison)
    (longest : LongestBody options body (token :: further))
    (alone : Follows options ⟨start, body⟩ ⟨⟨.operator last, deeper, []⟩, token :: further⟩)
    (derives : Derives options AnyBody .unary further rest right) :
    completeToRelation false last deeper = none := by
  cases completed : completeToRelation false last deeper with
  | none =>
      rfl
  | some both =>
      obtain ⟨left, remaining⟩ := both
      have operand : Takes options id id further rest := passes_of_derives derives
      exact (not_longestBody_of_step longest alone (.sign isSign completed) operand
        List.SublistForall₂.nil).elim

/-- A longest body does not end in front of a connective and an operand. -/
theorem not_longestBody_of_connective
    {connective : Connective}
    {body further rest : List Token}
    {deeper : List Pending}
    {right : Term}
    (longest : LongestBody options body (.connective connective :: further))
    (alone :
      Follows options ⟨start, body⟩
        ⟨⟨.operator last, deeper, []⟩, .connective connective :: further⟩)
    (derives : Derives options AnyBody (.rightOf connective) further rest right) :
    False := by
  have operand := passes_of_derives derives
  rw [passes_rightOf] at operand
  exact not_longestBody_of_step longest alone (.connective rfl) operand
    (List.SublistForall₂.cons id .nil)

theorem completeToRelation_binder_of_none
    {isRelation : Bool}
    {deeper outside : List Pending}
    {binder : Binder}
    {bound : List Identifier}
    (closed : completeToRelation isRelation last deeper = none) :
    completeToRelation isRelation last (deeper ++ .binder binder bound :: outside) =
      completeToRelation false (completeAll last (deeper ++ [.binder binder bound])) outside := by
  induction deeper generalizing isRelation last with
  | nil =>
      cases isRelation with
      | false =>
          cases closed
      | true =>
          rfl
  | cons operator deeper inductionHypothesis =>
      cases operator with
      | negation | equation | relation =>
          exact inductionHypothesis closed
      | connective | binder =>
          cases isRelation with
          | false =>
              cases closed
          | true =>
              exact inductionHypothesis closed

/-- A left side is complete before a sign and the right side. -/
theorem Leaves.completeToRelation
    {token : Token}
    {comparison : Term → Pending}
    {right : Term}
    {outside : List Pending}
    (isSign : Sign token comparison)
    (leaves : Leaves options .unary tokens (token :: behind) term last operators)
    (derives : Derives options AnyBody .unary behind rest right)
    (accepts : Accepts outside Category.relation.strength) :
    Reader.completeToRelation false last (operators ++ outside) = some (term, outside) := by
  rcases leaves.strong with strong | ⟨_, inBody⟩
  · rw [completeToRelation_append strong accepts, leaves.isTerm]
  · obtain ⟨deeper, binder, bound, shell, body, rfl, shellStrong, longest, alone⟩ := inBody
    have closed := completeToRelation_eq_none_of_longestBody isSign longest alone derives
    rw [List.append_assoc, List.cons_append, completeToRelation_binder_of_none closed,
      completeToRelation_append shellStrong accepts, ← completeAll_append, ← leaves.isTerm,
      List.append_assoc]
    rfl

/-- A left operand is complete before a connective and the right operand. -/
theorem Leaves.completeDown
    {connective : Connective}
    {right : Term}
    {outside : List Pending}
    (leaves :
      Leaves options (.leftOf connective) tokens (.connective connective :: behind) term last
        operators)
    (derives : Derives options AnyBody (.rightOf connective) behind rest right)
    (accepts : Accepts outside (Category.ofConnective connective).strength) :
    Reader.completeDown connective.leftStrength last (operators ++ outside) =
      (term, outside) := by
  rcases leaves.strong with strong | ⟨_, inBody⟩
  · rw [Category.strength_leftOf] at strong
    rw [Category.strength_ofConnective connective term right] at accepts
    rw [completeDown_append strong accepts, leaves.isTerm]
  · obtain ⟨deeper, binder, bound, shell, body, rfl, shellStrong, longest, alone⟩ := inBody
    exact (not_longestBody_of_connective longest alone derives).elim

/-- A term without pending operators of its own. -/
theorem Leaves.whole
    (reads :
      ∀ pending outer,
        Follows options ⟨⟨.operand, pending, outer⟩, tokens⟩
          ⟨⟨.operator term, pending, outer⟩, rest⟩) :
    Leaves options category tokens rest term term [] :=
  ⟨fun pending outer _ => reads pending outer, rfl, .inl nofun⟩

/-- An application or an atom leaves no operators behind. -/
theorem Leaves.eq_nil
    (leaves : Leaves options category tokens rest term last operators)
    (tight : 7 ≤ category.strength) :
    operators = [] := by
  rcases leaves.strong with strong | ⟨loose, _⟩
  · cases operators with
    | nil =>
        rfl
    | cons operator operators =>
        have atLeast := strong operator List.mem_cons_self
        have bound := operator.strength_le
        omega
  · exact (Nat.not_le.mpr tight loose).elim

/-- An operator that is no binder, with its last operand. -/
theorem Leaves.under
    (leaves : Leaves options category behind rest term last operators)
    (operator : Pending)
    (accepts : operator.operandStrength ≤ category.strength)
    (noBinder : operator.category.strength ≤ operator.strength)
    (begins :
      ∀ pending outer,
        Accepts pending operator.category.strength →
          Follows options ⟨⟨.operand, pending, outer⟩, tokens⟩
            ⟨⟨.operand, operator :: pending, outer⟩, behind⟩) :
    Leaves options operator.category tokens rest (operator.complete term) last
      (operators ++ [operator]) := by
  have weaker : operator.category.strength ≤ category.strength :=
    Nat.le_trans noBinder (Nat.le_trans operator.strength_le_operandStrength accepts)
  refine ⟨fun pending outer acceptsWhole => ?_, ?_, ?_⟩
  · rw [List.append_assoc]
    exact (begins pending outer acceptsWhole).trans
      (leaves.reads (operator :: pending) outer ((accepts_cons operator).mono accepts))
  · rw [completeAll_append, leaves.isTerm]
    rfl
  · rcases leaves.strong with strong | ⟨_, inBody⟩
    · refine .inl (List.forall_mem_append.mpr ⟨fun other member => ?_, ?_⟩)
      · exact Nat.le_trans weaker (strong other member)
      · simpa using noBinder
    · refine .inr ⟨?_, (inBody.mono weaker).append noBinder⟩
      exact Nat.le_trans noBinder operator.strength_le

/-- A looser category leaves the same behind. -/
theorem Leaves.loosen
    {looser : Category}
    (leaves : Leaves options category tokens rest term last operators)
    (weaker : looser.strength ≤ category.strength) :
    Leaves options looser tokens rest term last operators := by
  refine ⟨fun pending outer accepts => leaves.reads pending outer (accepts.mono weaker),
    leaves.isTerm, ?_⟩
  rcases leaves.strong with strong | ⟨loose, inBody⟩
  · exact .inl fun operator member => Nat.le_trans weaker (strong operator member)
  · exact .inr ⟨Nat.le_trans weaker loose, inBody.mono weaker⟩

/-- In parentheses, the tokens leave all items but the last one in the list that is open. -/
def LeavesItems
    (options : ReadingOptions)
    (tokens rest : List Token)
    (items : List Term) : Prop :=
  ∃ front last operators,
    items = front ++ [completeAll last operators] ∧
      ∀ opening closed,
        Lists opening closed →
          ∀ earlier outside outer,
            Follows options
              ⟨⟨.operand, [], ⟨opening earlier, outside⟩ :: outer⟩, tokens⟩
              ⟨⟨.operator last, operators,
                  ⟨opening (earlier ++ front), outside⟩ :: outer⟩, rest⟩

/-- The tokens of an expression leave the parts of its term behind, those of a list the items. -/
def Makes
    (options : ReadingOptions)
    (category : Category)
    (tokens rest : List Token)
    (term : Term) : Prop :=
  match category with
  | .list => ∀ items, term = .tuple items → LeavesItems options tokens rest items
  | category => ∃ last operators, Leaves options category tokens rest term last operators

theorem makes_iff (isExpression : category ≠ .list) :
    Makes options category tokens rest term ↔
      ∃ last operators, Leaves options category tokens rest term last operators := by
  cases category with
  | list =>
      exact (isExpression rfl).elim
  | _ =>
      exact Iff.rfl

theorem Makes.connect
    {connective : Connective}
    {left right : Term}
    (derivesRight : Derives options AnyBody (.rightOf connective) behind rest right)
    (makesLeft :
      Makes options (.leftOf connective) tokens (.connective connective :: behind) left)
    (makesRight : Makes options (.rightOf connective) behind rest right) :
    Makes options (.ofConnective connective) tokens rest (.connect connective left right) := by
  rw [makes_iff (by cases connective <;> decide)] at makesLeft makesRight ⊢
  obtain ⟨lastLeft, operatorsLeft, leavesLeft⟩ := makesLeft
  obtain ⟨last, operators, leavesRight⟩ := makesRight
  have weaker :
      (Category.ofConnective connective).strength ≤ (Category.leftOf connective).strength := by
    cases connective <;> decide
  refine ⟨last, _, leavesRight.under (.connective connective left)
    (Nat.le_of_eq (Category.strength_rightOf connective).symm) ?_ ?_⟩
  · cases connective <;> exact Nat.le_refl _
  · intro pending outer accepts
    exact (leavesLeft.reads pending outer (accepts.mono weaker)).tail
      (.connective (leavesLeft.completeDown derivesRight accepts))

theorem Makes.sign
    {token : Token}
    {comparison : Term → Pending}
    {left right : Term}
    (isSign : Sign token comparison)
    (derivesRight : Derives options AnyBody .unary behind rest right)
    (makesLeft : Makes options .unary tokens (token :: behind) left)
    (makesRight : Makes options .unary behind rest right) :
    Makes options .relation tokens rest ((comparison left).complete right) := by
  obtain ⟨lastLeft, operatorsLeft, leavesLeft⟩ := makesLeft
  obtain ⟨last, operators, leavesRight⟩ := makesRight
  have begins
      (pending : List Pending)
      (outer : List Level)
      (accepts : Accepts pending Category.relation.strength) :
      Follows options ⟨⟨.operand, pending, outer⟩, tokens⟩
        ⟨⟨.operand, comparison left :: pending, outer⟩, behind⟩ :=
    (leavesLeft.reads pending outer (accepts.mono (by decide))).tail
      (.sign isSign (leavesLeft.completeToRelation isSign derivesRight accepts))
  cases isSign with
  | equation =>
      exact ⟨last, _, leavesRight.under (.equation left) (Nat.le_refl _) (Nat.le_refl _)
        begins⟩
  | relation relation =>
      exact ⟨last, _, leavesRight.under (.relation relation left) (Nat.le_refl _)
        (Nat.le_refl _) begins⟩

theorem Makes.bind
    {binder : Binder}
    {names : List String}
    {bound : List Identifier}
    {behind : List Token}
    {body : Term}
    (heads : Heads options binder names tokens behind)
    (binds : List.Forall₂ (Binds options) names bound)
    (longest : LongestBody options behind rest)
    (makesBody : Makes options .equivalence behind rest body) :
    Makes options .unary tokens rest (bound.foldr (Term.bind binder) body) := by
  obtain ⟨last, operators, leaves⟩ := makesBody
  have alone := leaves.reads [] [] nofun
  rw [List.append_nil] at alone
  refine ⟨last, operators ++ [.binder binder bound], ?_, ?_,
    .inr ⟨Nat.le_refl _, operators, binder, bound, [], behind, rfl, nofun, longest, alone⟩⟩
  · intro pending outer _
    have inBody :=
      leaves.reads (.binder binder bound :: pending) outer
        ((accepts_cons _).mono (Nat.zero_le _))
    rw [List.append_assoc]
    exact (follows_heads heads binds).trans inBody
  · rw [completeAll_append, leaves.isTerm]
    rfl

theorem Makes.app
    {function : Term}
    {arguments : List Term}
    (makesFunction : Makes options .application tokens (.openParenthesis :: behind) function)
    (makesArguments :
      Makes options .list behind (.closeParenthesis :: rest) (.tuple arguments)) :
    Makes options .application tokens rest (.app function (collect arguments)) := by
  obtain ⟨last, operators, leaves⟩ := makesFunction
  obtain ⟨front, lastItem, operatorsItem, rfl, readsArguments⟩ := makesArguments _ rfl
  obtain rfl := leaves.eq_nil (Nat.le_refl _)
  obtain rfl := leaves.isTerm
  refine ⟨_, [], ?_, rfl, .inl nofun⟩
  intro pending outer accepts
  exact (((leaves.reads pending outer accepts).tail .openCall).trans
    (readsArguments _ _ (.call _) [] pending outer)).tail (.closeParenthesis (.call _))

theorem Makes.further
    {items : List Term}
    {item : Term}
    (makesItems : Makes options .list tokens (.comma :: behind) (.tuple items))
    (makesItem : Makes options .equivalence behind rest item) :
    LeavesItems options tokens rest (items ++ [item]) := by
  obtain ⟨last, operators, leaves⟩ := makesItem
  obtain ⟨front, lastBefore, operatorsBefore, rfl, readsItems⟩ := makesItems _ rfl
  refine ⟨_, last, operators, by rw [leaves.isTerm], ?_⟩
  intro opening closed lists earlier outside outer
  have inside :=
    leaves.reads []
      (⟨opening (earlier ++ front ++ [completeAll lastBefore operatorsBefore]), outside⟩ ::
        outer)
      nofun
  rw [List.append_nil] at inside
  rw [← List.append_assoc]
  exact ((readsItems opening closed lists earlier outside outer).tail (.comma lists)).trans
    inside

/-- A derivation whose bodies are the longest is read as it is. -/
theorem makes_of_derives
    (derives : Derives options (LongestBody options) category tokens rest term) :
    Makes options category tokens rest term := by
  induction derives with
  | @tighter category next _ _ _ isNext _ inductionHypothesis =>
      have stronger := Category.strength_eq_succ isNext
      rw [makes_iff (by rintro rfl; cases isNext)]
      rw [makes_iff (by rintro rfl; cases category <;> cases isNext)] at inductionHypothesis
      obtain ⟨last, operators, leaves⟩ := inductionHypothesis
      exact ⟨last, operators, leaves.loosen (by omega)⟩
  | connect _ derivesRight leftHypothesis rightHypothesis =>
      exact leftHypothesis.connect derivesRight.any rightHypothesis
  | equal _ derivesRight leftHypothesis rightHypothesis =>
      exact leftHypothesis.sign .equation derivesRight.any rightHypothesis
  | relate _ derivesRight leftHypothesis rightHypothesis =>
      exact leftHypothesis.sign (.relation _) derivesRight.any rightHypothesis
  | neg _ inductionHypothesis =>
      obtain ⟨last, operators, leaves⟩ := inductionHypothesis
      exact ⟨last, _, leaves.under .negation (Nat.le_refl _) (Nat.le_refl _)
        (fun _ _ _ => .head .negation .refl)⟩
  | bind heads binds _ longest inductionHypothesis =>
      exact inductionHypothesis.bind heads binds longest
  | app _ _ functionHypothesis argumentsHypothesis =>
      exact functionHypothesis.app argumentsHypothesis
  | name noBinder known =>
      exact ⟨_, [], .whole fun pending outer => .head (.name noBinder known) .refl⟩
  | group _ inductionHypothesis =>
      obtain ⟨front, last, pendingLast, rfl, readsItems⟩ := inductionHypothesis _ rfl
      refine ⟨_, [], .whole fun pending outer => ?_⟩
      exact (Follows.head .openGroup (readsItems _ _ .group [] pending outer)).tail
        (.closeParenthesis .group)
  | bracket _ inductionHypothesis =>
      obtain ⟨last, operators, leaves⟩ := inductionHypothesis
      refine ⟨_, [], .whole fun pending outer => ?_⟩
      have inside := leaves.reads [] (⟨.bracket, pending⟩ :: outer) nofun
      rw [List.append_nil] at inside
      rw [← leaves.isTerm]
      exact (Follows.head .openBracket inside).tail .closeBracket
  | single _ inductionHypothesis =>
      obtain ⟨last, operators, leaves⟩ := inductionHypothesis
      rintro items ⟨⟩
      refine ⟨[], last, operators, by rw [leaves.isTerm]; rfl, ?_⟩
      intro opening closed lists earlier outside outer
      have inside := leaves.reads [] (⟨opening earlier, outside⟩ :: outer) nofun
      rw [List.append_nil] at inside ⊢
      exact inside
  | further _ _ itemsHypothesis itemHypothesis =>
      rintro items ⟨⟩
      exact itemsHypothesis.further itemHypothesis

/-- With the longest bodies, the tokens of an expression determine its term. -/
theorem eq_of_derives
    {other : Term}
    (derives : Derives options (LongestBody options) category tokens rest term)
    (derivesOther : Derives options (LongestBody options) category tokens rest other)
    (isExpression : category ≠ .list) :
    term = other := by
  obtain ⟨last, operators, leaves⟩ := (makes_iff isExpression).mp (makes_of_derives derives)
  obtain ⟨lastOther, operatorsOther, leavesOther⟩ :=
    (makes_iff isExpression).mp (makes_of_derives derivesOther)
  have same :=
    (leaves.reads [] [] nofun).unique (leavesOther.reads [] [] nofun) rfl
  simp only [Configuration.mk.injEq, State.mk.injEq, Mode.operator.injEq,
    List.append_nil, and_true] at same
  obtain ⟨rfl, rfl⟩ := same
  rw [← leaves.isTerm, ← leavesOther.isTerm]

end TypedLambda.Term.Reader

namespace TypedLambda.Term

open Grammar

variable {options : ReadingOptions} {text : String} {scan : Token.Scan} {term : Term}

/-- A text is read by a run over its lexemes; without any, the run fails as well. -/
theorem read_eq_ok_iff_run (scanned : Token.scan options.style text = .ok scan) :
    read options text = .ok term ↔
      Reader.run options scan.finish Reader.start scan.lexemes = .ok term := by
  simp only [read, scanned, Outcome.ok_bind]
  split
  · next noLexemes =>
      rw [List.isEmpty_iff.mp noLexemes]
      constructor <;> rintro ⟨⟩
  · exact Iff.rfl

/--
A text is read as a term exactly if the grammar derives the term from its
tokens with the longest bodies, and it is read at all exactly if the grammar
derives anything from them.
-/
theorem read_eq_ok_iff_derives (scanned : Token.scan options.style text = .ok scan) :
    (∀ term,
        read options text = .ok term ↔
          Derives options (LongestBody options) .equivalence
            (scan.lexemes.map Lexeme.token) [] term) ∧
      ((∃ term, read options text = .ok term) ↔
        ∃ term,
          Derives options AnyBody .equivalence (scan.lexemes.map Lexeme.token) [] term) := by
  have derivesOf
      {term : Term}
      (result : read options text = .ok term) :
      Derives options (LongestBody options) .equivalence
        (scan.lexemes.map Lexeme.token) [] term := by
    obtain ⟨last, pending, follows, rfl⟩ :=
      Reader.run_eq_ok_iff.mp ((read_eq_ok_iff_run scanned).mp result)
    exact Reader.derives_of_follows_end Reader.endsWhereStuck_longestBody follows
  refine ⟨fun term => ⟨derivesOf, fun derives => ?_⟩, ?_, ?_⟩
  · obtain ⟨last, operators, leaves⟩ := Reader.makes_of_derives derives
    have follows := leaves.reads [] [] nofun
    rw [List.append_nil] at follows
    exact (read_eq_ok_iff_run scanned).mpr
      (Reader.run_eq_ok_iff.mpr ⟨last, operators, follows, leaves.isTerm⟩)
  · rintro ⟨term, result⟩
    exact ⟨term, (derivesOf result).any⟩
  · rintro ⟨term, derives⟩
    obtain ⟨last, pending, follows⟩ := Reader.exists_follows_of_derives derives
    exact ⟨_, (read_eq_ok_iff_run scanned).mpr
      (Reader.run_eq_ok_iff.mpr ⟨last, pending, follows, rfl⟩)⟩

/-- The equation of λx.x = a with b, read from a text without parentheses. -/
theorem read_eq_ok_iff_derives_abstractionEquation :
    ∃ scan,
      Token.scan ReadingOptions.standard.style "λx.x = a = b" = .ok scan ∧
        Derives .standard (LongestBody .standard) .equivalence
          (scan.lexemes.map Lexeme.token) []
          (.equal
            (.bind .lambda ⟨"x", .entity⟩
              (.equal (.var ⟨"x", .entity⟩) (.const ⟨"a", .entity⟩)))
            (.const ⟨"b", .entity⟩)) := by
  obtain ⟨scan, scanned⟩ :
      ∃ scan,
        Token.scan ReadingOptions.standard.style "λx.x = a = b" = .ok scan :=
    ⟨_, rfl⟩
  have result :
      read .standard "λx.x = a = b" =
        .ok (.equal
          (.bind .lambda ⟨"x", .entity⟩
            (.equal (.var ⟨"x", .entity⟩) (.const ⟨"a", .entity⟩)))
          (.const ⟨"b", .entity⟩)) := rfl
  exact ⟨scan, scanned, ((read_eq_ok_iff_derives scanned).1 _).mp result⟩

end TypedLambda.Term
