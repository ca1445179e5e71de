import TypedLambda.Proofs.Outcome
import TypedLambda.Proofs.Term.Grammar

namespace TypedLambda.Term.Reader

/-!
# Steps of the reader

Everything that the reader can do with a token, without positions and
messages: `Step` lists the moves, in the words of the grammar where a binder
may begin, and `step_eq_ok_iff` says that there are no others.
-/

open Grammar

/-- A state of the reader with the tokens ahead. -/
structure Configuration where
  state : State
  ahead : List Token

/-- The sign of an equation or a set relation, with what waits behind it for the right side. -/
inductive Sign : Token → (Term → Pending) → Prop where
  | equation : Sign .equals .equation
  | relation (relation : SetRelation) : Sign (.relation relation) (.relation relation)

/-- Parentheses that open a list, by its items so far, and what the closed list makes. -/
inductive Lists : (List Term → Opening) → (List Term → Term) → Prop where
  | group : Lists .group collect
  | call (function : Term) :
      Lists (.call function) (fun arguments => .app function (collect arguments))

/-- One move of the reader. -/
inductive Step (options : ReadingOptions) : Configuration → Configuration → Prop where
  | negation
      {pending : List Pending}
      {outer : List Level}
      {rest : List Token} :
      Step options ⟨⟨.operand, pending, outer⟩, .negation :: rest⟩
        ⟨⟨.operand, .negation :: pending, outer⟩, rest⟩
  | symbol
      {pending : List Pending}
      {outer : List Level}
      {rest : List Token}
      {binder : Binder} :
      Step options ⟨⟨.operand, pending, outer⟩, .binder binder :: rest⟩
        ⟨⟨.binding binder [], pending, outer⟩, rest⟩
  | letter
      {pending : List Pending}
      {outer : List Level}
      {rest : List Token}
      {binder : Binder}
      {name : String}
      {fused names : List String}
      {bound : List Identifier}
      (stands : LetterBinder options names name binder fused)
      (binds : List.Forall₂ (Binds options) fused bound) :
      Step options
        ⟨⟨.operand, pending, outer⟩, .identifier name :: namesAndDot names rest⟩
        ⟨⟨.binding binder bound, pending, outer⟩, namesAndDot names rest⟩
  | name
      {pending : List Pending}
      {outer : List Level}
      {rest : List Token}
      {name : String}
      {kind : IdentifierKind}
      {ty : Ty}
      (noBinder :
        ∀ binder names start,
          ¬ Heads options binder names (.identifier name :: rest) start)
      (known : options.conventions.lookup? name = some (kind, ty)) :
      Step options ⟨⟨.operand, pending, outer⟩, .identifier name :: rest⟩
        ⟨⟨.operator (named kind ⟨name, ty⟩), pending, outer⟩, rest⟩
  | openGroup
      {pending : List Pending}
      {outer : List Level}
      {rest : List Token} :
      Step options ⟨⟨.operand, pending, outer⟩, .openParenthesis :: rest⟩
        ⟨⟨.operand, [], ⟨.group [], pending⟩ :: outer⟩, rest⟩
  | openBracket
      {pending : List Pending}
      {outer : List Level}
      {rest : List Token} :
      Step options ⟨⟨.operand, pending, outer⟩, .openBracket :: rest⟩
        ⟨⟨.operand, [], ⟨.bracket, pending⟩ :: outer⟩, rest⟩
  | bound
      {pending : List Pending}
      {outer : List Level}
      {rest : List Token}
      {binder : Binder}
      {bound : List Identifier}
      {name : String}
      {next : Identifier}
      (binds : Binds options name next) :
      Step options ⟨⟨.binding binder bound, pending, outer⟩, .identifier name :: rest⟩
        ⟨⟨.binding binder (bound ++ [next]), pending, outer⟩, rest⟩
  | dot
      {pending : List Pending}
      {outer : List Level}
      {rest : List Token}
      {binder : Binder}
      {bound : List Identifier}
      (nonempty : bound ≠ []) :
      Step options ⟨⟨.binding binder bound, pending, outer⟩, .dot :: rest⟩
        ⟨⟨.operand, .binder binder bound :: pending, outer⟩, rest⟩
  | openCall
      {pending : List Pending}
      {outer : List Level}
      {rest : List Token}
      {last : Term} :
      Step options ⟨⟨.operator last, pending, outer⟩, .openParenthesis :: rest⟩
        ⟨⟨.operand, [], ⟨.call last [], pending⟩ :: outer⟩, rest⟩
  | sign
      {pending remaining : List Pending}
      {outer : List Level}
      {rest : List Token}
      {last left : Term}
      {token : Token}
      {comparison : Term → Pending}
      (isSign : Sign token comparison)
      (completed : completeToRelation false last pending = some (left, remaining)) :
      Step options ⟨⟨.operator last, pending, outer⟩, token :: rest⟩
        ⟨⟨.operand, comparison left :: remaining, outer⟩, rest⟩
  | connective
      {pending remaining : List Pending}
      {outer : List Level}
      {rest : List Token}
      {last left : Term}
      {connective : Connective}
      (completed :
        completeDown connective.leftStrength last pending = (left, remaining)) :
      Step options ⟨⟨.operator last, pending, outer⟩, .connective connective :: rest⟩
        ⟨⟨.operand, .connective connective left :: remaining, outer⟩, rest⟩
  | comma
      {pending outside : List Pending}
      {outer : List Level}
      {rest : List Token}
      {last : Term}
      {opening : List Term → Opening}
      {closed : List Term → Term}
      {items : List Term}
      (lists : Lists opening closed) :
      Step options
        ⟨⟨.operator last, pending, ⟨opening items, outside⟩ :: outer⟩, .comma :: rest⟩
        ⟨⟨.operand, [], ⟨opening (items ++ [completeAll last pending]), outside⟩ :: outer⟩,
          rest⟩
  | closeParenthesis
      {pending outside : List Pending}
      {outer : List Level}
      {rest : List Token}
      {last : Term}
      {opening : List Term → Opening}
      {closed : List Term → Term}
      {items : List Term}
      (lists : Lists opening closed) :
      Step options
        ⟨⟨.operator last, pending, ⟨opening items, outside⟩ :: outer⟩,
          .closeParenthesis :: rest⟩
        ⟨⟨.operator (closed (items ++ [completeAll last pending])), outside, outer⟩, rest⟩
  | closeBracket
      {pending outside : List Pending}
      {outer : List Level}
      {rest : List Token}
      {last : Term} :
      Step options
        ⟨⟨.operator last, pending, ⟨.bracket, outside⟩ :: outer⟩, .closeBracket :: rest⟩
        ⟨⟨.operator (completeAll last pending), outside, outer⟩, rest⟩

variable {options : ReadingOptions}

section Names

variable {name : String} {position : Nat}

theorem boundVariable_eq_ok_iff {bound : Identifier} :
    options.boundVariable name position = .ok bound ↔ Binds options name bound := by
  unfold ReadingOptions.boundVariable Binds
  split
  · next ty known =>
      constructor
      · intro same
        cases same
        exact ⟨rfl, known⟩
      · rintro ⟨rfl, lookedUp⟩
        rw [known] at lookedUp
        cases lookedUp
        rfl
  · next ty known =>
      simp [known]
  · next unknown =>
      simp [unknown]

theorem identifierTerm_eq_ok_iff {term : Term} :
    options.identifierTerm name position = .ok term ↔
      ∃ kind ty,
        options.conventions.lookup? name = some (kind, ty) ∧ term = named kind ⟨name, ty⟩ := by
  unfold ReadingOptions.identifierTerm
  split
  · next ty known =>
      simp [known, named, eq_comm]
  · next ty known =>
      simp [known, named, eq_comm]
  · next unknown =>
      simp [unknown]

end Names

section Letters

variable {rest : List Lexeme} {names : List String} {after : List Token}

/-- Names and a dot come next if the lexemes are such. -/
theorem bindingAhead_iff :
    bindingAhead rest = true ↔
      ∃ names after, rest.map Lexeme.token = namesAndDot names after := by
  induction rest with
  | nil =>
      simp [bindingAhead, namesAndDot]
  | cons lexeme rest inductionHypothesis =>
      obtain ⟨token, position⟩ := lexeme
      by_cases isName : ∃ name, token = .identifier name
      · obtain ⟨name, rfl⟩ := isName
        have passed :
            bindingAhead (⟨.identifier name, position⟩ :: rest) = bindingAhead rest := by
          rw [bindingAhead, bindingAhead, List.dropWhile_cons_of_pos rfl]
        rw [passed, inductionHypothesis]
        constructor
        · rintro ⟨names, after, spelled⟩
          exact ⟨name :: names, after, by simp [namesAndDot, spelled]⟩
        · rintro ⟨names, after, spelled⟩
          cases names with
          | nil =>
              simp [namesAndDot] at spelled
          | cons first names =>
              exact ⟨names, after, (List.cons.inj spelled).2⟩
      · have noIdentifier : isIdentifier ⟨token, position⟩ = false := by
          unfold isIdentifier
          split
          · next name same =>
              exact (isName ⟨name, same⟩).elim
          · rfl
        have stops :
            bindingAhead (⟨token, position⟩ :: rest) = true ↔ token = .dot := by
          simp [bindingAhead, noIdentifier]
        rw [stops]
        constructor
        · rintro rfl
          exact ⟨[], rest.map Lexeme.token, rfl⟩
        · rintro ⟨names, after, spelled⟩
          cases names with
          | nil =>
              exact (List.cons.inj spelled).1
          | cons first names =>
              exact (isName ⟨first, (List.cons.inj spelled).1⟩).elim

/-- Given names and a dot, there is a name if the first lexeme is an identifier. -/
theorem startsWithName_iff
    (behind : rest.map Lexeme.token = namesAndDot names after) :
    (rest.head?.map isIdentifier).getD false = true ↔ names ≠ [] := by
  cases rest with
  | nil =>
      cases names <;> simp [namesAndDot] at behind
  | cons lexeme rest =>
      obtain ⟨token, position⟩ := lexeme
      cases names with
      | nil =>
          obtain rfl : token = .dot := (List.cons.inj behind).1
          simp [isIdentifier]
      | cons first names =>
          obtain rfl : token = .identifier first := (List.cons.inj behind).1
          simp [isIdentifier]

/-- The characters fused with the letter for a binder are the first name to be bound, if any. -/
def Fuses (characters : List Char) (fused : List String) : Prop :=
  characters = [] ∧ fused = [] ∨ characters ≠ [] ∧ fused = [String.ofList characters]

/-- The reader takes the names for the binder that they stand for. -/
theorem letterBinder?_iff
    {name : String}
    {binder : Binder}
    {fused : List String} :
    (∃ characters,
        letterBinder? options name rest = some (binder, characters) ∧
          Fuses characters fused) ↔
      ∃ names after,
        rest.map Lexeme.token = namesAndDot names after ∧
          LetterBinder options names name binder fused := by
  constructor
  · rintro ⟨characters, found, fuses⟩
    unfold letterBinder? at found
    split at found
    · next allowed =>
        rw [Bool.and_eq_true] at allowed
        obtain ⟨names, after, behind⟩ := bindingAhead_iff.mp allowed.2
        refine ⟨names, after, behind, ?_⟩
        split at found
        · cases found
        · next letter spelled =>
            split at found
            · next startsWithName =>
                obtain ⟨_, stands, same⟩ := Option.map_eq_some_iff.mp found
                cases same
                obtain ⟨_, rfl⟩ | ⟨several, _⟩ := fuses
                · exact .alone allowed.1 spelled stands
                    ((startsWithName_iff behind).mp startsWithName)
                · exact (several rfl).elim
            · cases found
        · next letter first more spelled =>
            split at found
            · next begins =>
                obtain ⟨_, stands, same⟩ := Option.map_eq_some_iff.mp found
                cases same
                obtain ⟨none, _⟩ | ⟨_, rfl⟩ := fuses
                · cases none
                · exact .fused allowed.1 spelled stands begins
            · cases found
    · cases found
  · rintro ⟨names, after, behind, stands⟩
    have ahead : bindingAhead rest = true := bindingAhead_iff.mpr ⟨names, after, behind⟩
    cases stands with
    | alone allowed spelled stands nonempty =>
        refine ⟨[], ?_, .inl ⟨rfl, rfl⟩⟩
        have startsWithName := (startsWithName_iff behind).mpr nonempty
        simp [letterBinder?, allowed, ahead, spelled, stands, startsWithName]
    | fused allowed spelled stands begins =>
        refine ⟨_, ?_, .inr ⟨List.cons_ne_nil _ _, rfl⟩⟩
        simp [letterBinder?, allowed, ahead, spelled, stands, begins]

/-- The reader takes a name for no binder exactly if no binder starts there. -/
theorem letterBinder?_eq_none_iff {name : String} :
    letterBinder? options name rest = none ↔
      ∀ binder names start,
        ¬ Heads options binder names (.identifier name :: rest.map Lexeme.token) start := by
  constructor
  · intro absent binder names start heads
    generalize isWhole : Token.identifier name :: rest.map Lexeme.token = tokens at heads
    cases heads with
    | symbol =>
        cases isWhole
    | letter stands =>
        obtain ⟨same, behind⟩ := List.cons.inj isWhole
        cases same
        obtain ⟨_, found, _⟩ := letterBinder?_iff.mpr ⟨_, _, behind, stands⟩
        rw [absent] at found
        cases found
  · intro noBinder
    cases found : letterBinder? options name rest with
    | none =>
        rfl
    | some both =>
        obtain ⟨binder, characters⟩ := both
        obtain ⟨fused, fuses⟩ : ∃ fused, Fuses characters fused := by
          cases characters with
          | nil =>
              exact ⟨[], .inl ⟨rfl, rfl⟩⟩
          | cons first more =>
              exact ⟨_, .inr ⟨List.cons_ne_nil _ _, rfl⟩⟩
        obtain ⟨names, after, behind, stands⟩ :=
          letterBinder?_iff.mp ⟨characters, found, fuses⟩
        refine (noBinder binder (fused ++ names) after ?_).elim
        rw [behind]
        exact .letter stands

end Letters

section Moves

variable {state next : State} {lexeme : Lexeme} {rest : List Lexeme}

theorem Step.of_beginOperand
    (isOperand : state.mode = .operand)
    (stepped : state.beginOperand options lexeme rest = .ok next) :
    Step options ⟨state, lexeme.token :: rest.map Lexeme.token⟩
      ⟨next, rest.map Lexeme.token⟩ := by
  obtain ⟨mode, pending, outer⟩ := state
  subst isOperand
  unfold State.beginOperand at stepped
  split at stepped
  · next isToken =>
      rw [isToken]
      cases stepped
      exact .negation
  · next isToken =>
      rw [isToken]
      cases stepped
      exact .symbol
  · next name isToken =>
      rw [isToken]
      split at stepped
      · next binder found =>
          cases stepped
          obtain ⟨names, after, behind, stands⟩ :=
            letterBinder?_iff.mp ⟨[], found, .inl ⟨rfl, rfl⟩⟩
          rw [behind]
          exact .letter stands .nil
      · next binder characters several found =>
          simp only [Outcome.bind_eq_ok_iff, Outcome.pure_eq_ok_iff] at stepped
          obtain ⟨bound, foundBound, rfl⟩ := stepped
          obtain ⟨names, after, behind, stands⟩ :=
            letterBinder?_iff.mp ⟨characters, found, .inr ⟨several, rfl⟩⟩
          rw [behind]
          exact .letter stands (.cons (boundVariable_eq_ok_iff.mp foundBound) .nil)
      · next absent =>
          simp only [Outcome.bind_eq_ok_iff, Outcome.pure_eq_ok_iff] at stepped
          obtain ⟨term, foundTerm, rfl⟩ := stepped
          obtain ⟨kind, ty, known, rfl⟩ := identifierTerm_eq_ok_iff.mp foundTerm
          exact .name (letterBinder?_eq_none_iff.mp absent) known
  · next isToken =>
      rw [isToken]
      cases stepped
      exact .openGroup
  · next isToken =>
      rw [isToken]
      cases stepped
      exact .openBracket
  · cases stepped

theorem Step.of_continueBinding
    {binder : Binder}
    {bound : List Identifier}
    (isBinding : state.mode = .binding binder bound)
    (stepped : state.continueBinding options binder bound lexeme = .ok next) :
    Step options ⟨state, lexeme.token :: rest.map Lexeme.token⟩
      ⟨next, rest.map Lexeme.token⟩ := by
  obtain ⟨mode, pending, outer⟩ := state
  subst isBinding
  unfold State.continueBinding at stepped
  split at stepped
  · next isToken =>
      rw [isToken]
      simp only [Outcome.bind_eq_ok_iff, Outcome.pure_eq_ok_iff] at stepped
      obtain ⟨identifier, found, rfl⟩ := stepped
      exact .bound (boundVariable_eq_ok_iff.mp found)
  · cases stepped
  · next isToken nonempty =>
      rw [isToken]
      cases stepped
      exact .dot nonempty
  · cases stepped

theorem Step.of_beginRelation
    {last : Term}
    {comparison : Term → Pending}
    (isSign : Sign lexeme.token comparison)
    (isOperator : state.mode = .operator last)
    (stepped : state.beginRelation last comparison lexeme = .ok next) :
    Step options ⟨state, lexeme.token :: rest.map Lexeme.token⟩
      ⟨next, rest.map Lexeme.token⟩ := by
  obtain ⟨mode, pending, outer⟩ := state
  subst isOperator
  unfold State.beginRelation at stepped
  split at stepped
  · next completed =>
      cases stepped
      exact .sign isSign completed
  · cases stepped

theorem Step.of_continueOperand
    {last : Term}
    (isOperator : state.mode = .operator last)
    (stepped : state.continueOperand last lexeme = .ok next) :
    Step options ⟨state, lexeme.token :: rest.map Lexeme.token⟩
      ⟨next, rest.map Lexeme.token⟩ := by
  obtain ⟨mode, pending, outer⟩ := state
  subst isOperator
  unfold State.continueOperand at stepped
  split at stepped
  · next isToken =>
      rw [isToken]
      cases stepped
      exact .openCall
  · next isToken =>
      exact .of_beginRelation (isToken ▸ .equation) rfl stepped
  · next isToken =>
      exact .of_beginRelation (isToken ▸ .relation _) rfl stepped
  · next isToken =>
      rw [isToken]
      cases stepped
      exact .connective rfl
  · next isToken isOuter =>
      cases isOuter
      rw [isToken]
      cases stepped
      exact .comma .group
  · next isToken isOuter =>
      cases isOuter
      rw [isToken]
      cases stepped
      exact .comma (.call _)
  · next isToken isOuter =>
      cases isOuter
      rw [isToken]
      cases stepped
      exact .closeParenthesis .group
  · next isToken isOuter =>
      cases isOuter
      rw [isToken]
      cases stepped
      exact .closeParenthesis (.call _)
  · next isToken isOuter =>
      cases isOuter
      rw [isToken]
      cases stepped
      exact .closeBracket
  · cases stepped

/-- The reader moves exactly as listed. -/
theorem step_eq_ok_iff :
    state.step options lexeme rest = .ok next ↔
      Step options ⟨state, lexeme.token :: rest.map Lexeme.token⟩
        ⟨next, rest.map Lexeme.token⟩ := by
  constructor
  · intro stepped
    unfold State.step at stepped
    split at stepped
    · next isOperand =>
        exact .of_beginOperand isOperand stepped
    · next binder bound isBinding =>
        exact .of_continueBinding isBinding stepped
    · next last isOperator =>
        exact .of_continueOperand isOperator stepped
  · obtain ⟨token, position⟩ := lexeme
    generalize isAhead : rest.map Lexeme.token = ahead
    intro move
    cases move with
    | negation | symbol | openGroup | openBracket | openCall =>
        rfl
    | letter stands binds =>
        obtain ⟨characters, found, fuses⟩ :=
          letterBinder?_iff.mpr ⟨_, _, isAhead, stands⟩
        obtain ⟨rfl, rfl⟩ | ⟨several, rfl⟩ := fuses
        · cases binds
          simp only [State.step, State.beginOperand, found]
        · obtain ⟨bound, none, bindsFirst, isNone, rfl⟩ :=
            List.forall₂_cons_left_iff.mp binds
          obtain rfl := List.forall₂_nil_left_iff.mp isNone
          simp only [State.step, State.beginOperand, found,
            boundVariable_eq_ok_iff.mpr bindsFirst]
          rfl
    | name noBinder known =>
        subst isAhead
        simp only [State.step, State.beginOperand, letterBinder?_eq_none_iff.mpr noBinder,
          identifierTerm_eq_ok_iff.mpr ⟨_, _, known, rfl⟩]
        rfl
    | bound binds =>
        simp only [State.step, State.continueBinding, boundVariable_eq_ok_iff.mpr binds]
        rfl
    | @dot _ _ _ _ bound nonempty =>
        cases bound with
        | nil =>
            exact (nonempty rfl).elim
        | cons first more =>
            rfl
    | sign isSign completed =>
        cases isSign <;>
          simp only [State.step, State.continueOperand, State.beginRelation, completed]
    | connective completed =>
        simp only [State.step, State.continueOperand, completed]
    | comma lists | closeParenthesis lists =>
        cases lists <;> rfl
    | closeBracket =>
        rfl

end Moves

end TypedLambda.Term.Reader
