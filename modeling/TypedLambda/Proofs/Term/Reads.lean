import TypedLambda.Proofs.Term.ReaderRuns

namespace TypedLambda.Term.Reader

/-!
# Reading tokens

What a reader makes of tokens does not depend on their positions. `Reads` says
which state some tokens lead to in front of others, and `Supplies` that they
leave an operand behind which the pending operators complete to a given term,
without touching the operators that were pending before.
-/

open Grammar

variable {options : ReadingOptions} {tokens others after : List Token}
variable {state middle next : State}

/-- In front of the tokens behind them, the tokens lead from one state to another. -/
def Reads
    (options : ReadingOptions)
    (tokens after : List Token)
    (state next : State) : Prop :=
  ∀ lexemes rest finish,
    lexemes.map Lexeme.token = tokens →
      rest.map Lexeme.token = after →
        run options finish state (lexemes ++ rest) = run options finish next rest

theorem Reads.nil : Reads options [] after state state := by
  intro lexemes rest finish none _
  rw [List.map_eq_nil_iff.mp none, List.nil_append]

/-- Tokens are read one list after the other. -/
theorem Reads.append
    (first : Reads options tokens (others ++ after) state middle)
    (second : Reads options others after middle next) :
    Reads options (tokens ++ others) after state next := by
  intro lexemes rest finish spelled behind
  obtain ⟨before, more, rfl, spelledBefore, spelledMore⟩ :=
    List.map_eq_append_iff.mp spelled
  have allBehind : (more ++ rest).map Lexeme.token = others ++ after := by
    rw [List.map_append, spelledMore, behind]
  rw [List.append_assoc, first before _ finish spelledBefore allBehind,
    second more rest finish spelledMore behind]

/-- One token is read in a single step. -/
theorem Reads.single
    {token : Token}
    (step :
      ∀ position rest,
        rest.map Lexeme.token = after →
          state.step options ⟨token, position⟩ rest = .ok next) :
    Reads options [token] after state next := by
  intro lexemes rest finish spelled behind
  obtain ⟨⟨_, position⟩, rfl, rfl⟩ := List.map_eq_singleton_iff.mp spelled
  rw [List.singleton_append, run, step position rest behind]

/-- A first token, and then the others. -/
theorem Reads.cons
    {token : Token}
    (middle : State)
    (step :
      ∀ position rest,
        rest.map Lexeme.token = others ++ after →
          state.step options ⟨token, position⟩ rest = .ok middle)
    (further : Reads options others after middle next) :
    Reads options (token :: others) after state next :=
  (Reads.single step).append further

/-- What follows in steps is read. -/
theorem Reads.of_follows
    (follows : Follows options ⟨state, tokens ++ after⟩ ⟨next, after⟩) :
    Reads options tokens after state next := by
  intro lexemes rest finish spelled behind
  subst spelled behind
  rw [← List.map_append] at follows
  exact run_eq_of_follows follows (List.suffix_append lexemes rest)

/-- Neither an identifier nor a dot comes next, so nothing before them was a binder. -/
def Ends (tokens : List Token) : Prop :=
  ∀ token ∈ tokens.head?, token ≠ .dot ∧ ∀ name, token ≠ .identifier name

theorem Ends.ne_namesAndDot
    (ends : Ends tokens)
    (names : List String)
    (rest : List Token) :
    tokens ≠ namesAndDot names rest := by
  rintro rfl
  cases names with
  | nil =>
      exact (ends .dot rfl).1 rfl
  | cons first names =>
      exact (ends (.identifier first) rfl).2 first rfl

theorem Ends.not_heads
    (ends : Ends tokens)
    {name : String}
    {binder : Binder}
    {names : List String}
    {start : List Token} :
    ¬ Heads options binder names (.identifier name :: tokens) start := by
  intro heads
  cases heads with
  | letter =>
      exact ends.ne_namesAndDot _ _ rfl

section Identifiers

variable {pending : List Pending} {outer : List Level}

/-- An identifier is read as the term that it stands for. -/
theorem Reads.identifier
    {name : String}
    {term : Term}
    (found : ∀ position, options.identifierTerm name position = .ok term)
    (ends : Ends after) :
    Reads options [.identifier name] after
      ⟨.operand, pending, outer⟩ ⟨.operator term, pending, outer⟩ := by
  obtain ⟨kind, ty, known, rfl⟩ := identifierTerm_eq_ok_iff.mp (found 0)
  exact .of_follows (.head (.name (fun _ _ _ => ends.not_heads) known) .refl)

/-- The variable of a binder is read, and then the dot. -/
theorem Reads.bound
    {binder : Binder}
    {bound : Identifier}
    (found : ∀ position, options.boundVariable bound.name position = .ok bound) :
    Reads options [.identifier bound.name, .dot] after
      ⟨.binding binder [], pending, outer⟩
      ⟨.operand, .binder binder [bound] :: pending, outer⟩ := by
  have binds := boundVariable_eq_ok_iff.mp (found 0)
  exact .of_follows (follows_namesAndDot (.cons binds .nil) (List.cons_ne_nil _ _))

/-- A letter in front of a variable and a dot is read as a binder. -/
theorem Reads.letter
    {binder : Binder}
    {name : String}
    (allowed : options.letterBinders = true) :
    Reads options [.identifier (String.ofList (binder.symbol .plain))]
      (.identifier name :: .dot :: after)
      ⟨.operand, pending, outer⟩ ⟨.binding binder [], pending, outer⟩ := by
  have stands :
      LetterBinder options [name] (String.ofList (binder.symbol .plain)) binder [] := by
    cases binder <;> exact .alone allowed rfl rfl (List.cons_ne_nil _ _)
  exact .of_follows (.head (.letter stands .nil) .refl)

/-- A letter fused with a variable in front of a dot is read as a binder with the variable. -/
theorem Reads.fused
    {binder : Binder}
    {bound : Identifier}
    {first : Char}
    {more : List Char}
    (allowed : options.letterBinders = true)
    (found : ∀ position, options.boundVariable bound.name position = .ok bound)
    (spelled : bound.name.toList = first :: more)
    (letter : Text.isLetter first = true) :
    Reads options
      [.identifier (String.ofList (binder.symbol .plain ++ bound.name.toList)), .dot] after
      ⟨.operand, pending, outer⟩
      ⟨.operand, .binder binder [bound] :: pending, outer⟩ := by
  have named : String.ofList (first :: more) = bound.name := by
    rw [← spelled, String.ofList_toList]
  have stands :
      LetterBinder options [] (String.ofList (binder.symbol .plain ++ bound.name.toList))
        binder [bound.name] := by
    rw [spelled, ← named]
    cases binder <;> exact .fused allowed String.toList_ofList rfl letter
  have binds := boundVariable_eq_ok_iff.mp (found 0)
  exact .of_follows
    (.head (.letter stands (.cons binds .nil))
      (follows_namesAndDot .nil (List.cons_ne_nil _ _)))

end Identifiers

section Completion

/-- The least strength of the operand that an operator still waits for. -/
def Pending.operandStrength : Pending → Nat
  | .negation => 6
  | .equation _ => 6
  | .relation _ _ => 6
  | .connective operator _ => operator.rightStrength
  | .binder _ _ => 0

/-- A term of the given strength can follow the pending operators. -/
def Accepts (pending : List Pending) (strength : Nat) : Prop :=
  ∀ operator ∈ pending.head?, operator.operandStrength ≤ strength

variable {pending outside : List Pending} {term : Term} {strength : Nat}

theorem Accepts.mono
    {weaker : Nat}
    (accepts : Accepts outside weaker)
    (stronger : weaker ≤ strength) :
    Accepts outside strength :=
  fun operator isFirst => Nat.le_trans (accepts operator isFirst) stronger

theorem accepts_cons (operator : Pending) :
    Accepts (operator :: outside) operator.operandStrength := by
  intro first isFirst
  obtain rfl : operator = first := by simpa using isFirst
  exact Nat.le_refl _

theorem completeAll_append :
    completeAll term (pending ++ outside) =
      completeAll (completeAll term pending) outside :=
  List.foldl_append

/-- No operator is as strong as a term that needs no parentheses. -/
theorem Pending.strength_le (operator : Pending) : operator.strength ≤ 6 := by
  cases operator with
  | connective connective left =>
      cases connective <;> simp [Pending.strength]
  | _ =>
      simp [Pending.strength]

/-- An operator is no stronger than the operand that it waits for. -/
theorem Pending.strength_le_operandStrength (operator : Pending) :
    operator.strength ≤ operator.operandStrength := by
  cases operator with
  | connective connective left =>
      cases connective <;>
        simp [Pending.strength, operandStrength, Connective.rightStrength]
  | _ =>
      simp [Pending.strength, operandStrength]

/-- An operator that may come before an operand with a connective waits for the whole of it. -/
theorem Pending.strength_lt_leftStrength
    {operator : Pending}
    {connective : Connective}
    {left right : Term}
    (accepts : operator.operandStrength ≤ (Term.connect connective left right).strength) :
    operator.strength < connective.leftStrength := by
  cases operator with
  | connective earlier _ =>
      cases earlier <;> cases connective <;>
        simp_all [operandStrength, Term.strength, Pending.strength,
          Connective.leftStrength, Connective.rightStrength]
  | _ =>
      cases connective <;>
        simp_all [operandStrength, Term.strength, Pending.strength,
          Connective.leftStrength]

/-- A left operand is complete before a connective, and what was pending before it stays. -/
theorem completeDown_append
    {connective : Connective}
    {left right : Term}
    (strong : ∀ operator ∈ pending, connective.leftStrength ≤ operator.strength)
    (accepts : Accepts outside (Term.connect connective left right).strength) :
    completeDown connective.leftStrength term (pending ++ outside) =
      (completeAll term pending, outside) := by
  induction pending generalizing term with
  | nil =>
      cases outside with
      | nil =>
          rfl
      | cons operator outside =>
          have weak := Pending.strength_lt_leftStrength (accepts operator rfl)
          rw [List.nil_append, completeDown, if_neg (Nat.not_le.mpr weak)]
          rfl
  | cons operator pending inductionHypothesis =>
      rw [List.forall_mem_cons] at strong
      rw [List.cons_append, completeDown, if_pos strong.1,
        inductionHypothesis strong.2]
      rfl

/-- A left side is complete before an equation or a relation. -/
theorem completeToRelation_append
    (strong : ∀ operator ∈ pending, 6 ≤ operator.strength)
    (accepts : Accepts outside 5) :
    completeToRelation false term (pending ++ outside) =
      some (completeAll term pending, outside) := by
  induction pending generalizing term with
  | nil =>
      cases outside with
      | nil =>
          rfl
      | cons operator outside =>
          have waits := accepts operator rfl
          cases operator with
          | connective | binder =>
              rfl
          | _ =>
              simp [Pending.operandStrength] at waits
  | cons operator pending inductionHypothesis =>
      rw [List.forall_mem_cons] at strong
      cases operator with
      | negation =>
          exact inductionHypothesis strong.2
      | connective connective left =>
          cases connective <;> simp [Pending.strength] at strong
      | _ =>
          simp [Pending.strength] at strong

end Completion

section Operands

variable {pending : List Pending} {outer : List Level} {term : Term} {strength : Nat}

/--
The tokens leave an operand behind, and operators of at least the given
strength that complete it to the term. What was pending before is still
pending.
-/
def Supplies
    (options : ReadingOptions)
    (tokens after : List Token)
    (strength : Nat)
    (term : Term)
    (pending : List Pending)
    (outer : List Level) : Prop :=
  ∃ last operators,
    Reads options tokens after
        ⟨.operand, pending, outer⟩ ⟨.operator last, operators ++ pending, outer⟩ ∧
      completeAll last operators = term ∧
      ∀ operator ∈ operators, strength ≤ operator.strength

/-- Tokens that lead to the term itself leave no operator behind. -/
theorem Supplies.whole
    (reads :
      Reads options tokens after
        ⟨.operand, pending, outer⟩ ⟨.operator term, pending, outer⟩) :
    Supplies options tokens after strength term pending outer :=
  ⟨term, [], reads, rfl, nofun⟩

/-- A term that needs no parentheses is complete when it is read. -/
theorem Supplies.reads
    (supplies : Supplies options tokens after 7 term pending outer) :
    Reads options tokens after
      ⟨.operand, pending, outer⟩ ⟨.operator term, pending, outer⟩ := by
  obtain ⟨last, operators, reads, rfl, strong⟩ := supplies
  cases operators with
  | nil =>
      exact reads
  | cons operator operators =>
      have tooStrong := strong operator List.mem_cons_self
      have bound := operator.strength_le
      omega

/-- An operator whose last operand follows. -/
theorem Supplies.unary
    {operator : Pending}
    {first : List Token}
    (begins :
      Reads options first (tokens ++ after)
        ⟨.operand, pending, outer⟩ ⟨.operand, operator :: pending, outer⟩)
    (supplies :
      Supplies options tokens after operator.operandStrength term
        (operator :: pending) outer) :
    Supplies options (first ++ tokens) after operator.strength
      (operator.complete term) pending outer := by
  obtain ⟨last, operators, reads, rfl, strong⟩ := supplies
  refine ⟨last, operators ++ [operator], begins.append ?_, ?_, ?_⟩
  · rw [List.append_assoc]
    exact reads
  · rw [completeAll_append]
    rfl
  · intro other member
    rcases List.mem_append.mp member with isInner | isOperator
    · exact Nat.le_trans operator.strength_le_operandStrength (strong other isInner)
    · exact Nat.le_of_eq
        (congrArg Pending.strength (List.mem_singleton.mp isOperator).symm)

/-- An operator between two operands. -/
theorem Supplies.binary
    {left : Term}
    {token : Token}
    {demanded : Nat}
    {operator : Pending}
    (first : Supplies options tokens (token :: (others ++ after)) demanded left pending outer)
    (continues :
      ∀ last operators,
        (∀ earlier ∈ operators, demanded ≤ earlier.strength) →
          completeAll last operators = left →
            ∀ position rest,
              State.step ⟨.operator last, operators ++ pending, outer⟩ options
                  ⟨token, position⟩ rest =
                .ok ⟨.operand, operator :: pending, outer⟩)
    (second :
      Supplies options others after operator.operandStrength term
        (operator :: pending) outer) :
    Supplies options (tokens ++ token :: others) after operator.strength
      (operator.complete term) pending outer := by
  obtain ⟨last, operators, reads, isLeft, strong⟩ := first
  have begins :
      Reads options (tokens ++ [token]) (others ++ after)
        ⟨.operand, pending, outer⟩ ⟨.operand, operator :: pending, outer⟩ :=
    reads.append (.single fun position rest _ =>
      continues last operators strong isLeft position rest)
  have whole := Supplies.unary begins second
  rwa [List.append_assoc] at whole

end Operands

end TypedLambda.Term.Reader
