import TypedLambda.Proofs.Outcome
import TypedLambda.Text.Letter
import TypedLambda.Ty.Reader

namespace TypedLambda.Ty.Reader

/-!
# The steps of reading a type

Every move that the reader can make is listed here once, by the character that
it takes and the states before and after. A type is read exactly if moves lead
from the start through all characters of the text to a state that may end with
the type.
-/

/-- A character begins a factor in the innermost product. -/
inductive Begins (state : State) : Char → State → Prop where
  /-- The domain of a function type comes next. -/
  | function :
      Begins state '<' ⟨.factor, [], ⟨state.factors, .domain⟩ :: state.outer⟩
  /-- A type in parentheses comes next. -/
  | group :
      Begins state '(' ⟨.factor, [], ⟨state.factors, .group⟩ :: state.outer⟩
  /-- The letter of a type variable comes next. -/
  | quote :
      Begins state '\x27' ⟨.letter, state.factors, state.outer⟩
  /-- A small letter is a whole factor. -/
  | atom
      {character : Char}
      (small : Text.isSmallLetter character = true) :
      Begins state character
        ⟨.continuation, state.factors ++ [.atom character], state.outer⟩

/-- One character leads from a state to the next one. -/
inductive Step : State → Char → State → Prop where
  /-- Blanks are passed over, except behind the quote of a type variable. -/
  | blank
      {state : State}
      {character : Char}
      (between : state.mode ≠ .letter)
      (isBlank : Text.isBlank character = true) :
      Step state character state
  /-- A factor begins. -/
  | factor
      {factors : List Ty}
      {outer : List Level}
      {character : Char}
      {next : State}
      (begins : Begins ⟨.factor, factors, outer⟩ character next) :
      Step ⟨.factor, factors, outer⟩ character next
  /-- The letter of a type variable follows its quote. -/
  | letter
      {factors : List Ty}
      {outer : List Level}
      {character : Char}
      (small : Text.isSmallLetter character = true) :
      Step ⟨.letter, factors, outer⟩ character
        ⟨.continuation, factors ++ [.var character], outer⟩
  /-- The product goes on. -/
  | times
      {factors : List Ty}
      {outer : List Level}
      {character : Char}
      (sign : character = '×' ∨ character = '*') :
      Step ⟨.continuation, factors, outer⟩ character ⟨.factor, factors, outer⟩
  /-- The domain is complete, and a comma stands before the range. -/
  | comma
      {factors before : List Ty}
      {outer : List Level} :
      Step ⟨.continuation, factors, ⟨before, .domain⟩ :: outer⟩ ','
        ⟨.factor, [], ⟨before, .range (product factors)⟩ :: outer⟩
  /-- The domain is complete, and the range begins at once. -/
  | rangeAtOnce
      {factors before : List Ty}
      {outer : List Level}
      {character : Char}
      {next : State}
      (begins :
        Begins ⟨.factor, [], ⟨before, .range (product factors)⟩ :: outer⟩ character next) :
      Step ⟨.continuation, factors, ⟨before, .domain⟩ :: outer⟩ character next
  /-- The range is complete, and with it the function type. -/
  | closeFunction
      {factors before : List Ty}
      {domain : Ty}
      {outer : List Level} :
      Step ⟨.continuation, factors, ⟨before, .range domain⟩ :: outer⟩ '>'
        ⟨.continuation, before ++ [.fn domain (product factors)], outer⟩
  /-- A type in parentheses is complete. -/
  | closeGroup
      {factors before : List Ty}
      {outer : List Level} :
      Step ⟨.continuation, factors, ⟨before, .group⟩ :: outer⟩ ')'
        ⟨.continuation, before ++ [product factors], outer⟩

/-- A small letter is neither a blank nor a sign of the printed form. -/
theorem isSmallLetter_ne
    {character : Char}
    (small : Text.isSmallLetter character = true) :
    Text.isBlank character = false ∧
      character ∉ ['<', '>', '(', ')', '\x27', ',', '×', '*'] := by
  have letter := Text.isLetter_of_isSmallLetter small
  exact ⟨Text.isBlank_eq_false_of_isLetter letter,
    Text.notMem_of_isLetter letter (by decide +kernel)⟩

/-- What begins a factor is no blank and does not go on with a product. -/
theorem Begins.character_ne
    {state next : State}
    {character : Char}
    (begins : Begins state character next) :
    Text.isBlank character = false ∧
      character ≠ '×' ∧ character ≠ '*' ∧ character ≠ ',' := by
  cases begins with
  | atom small =>
      obtain ⟨notBlank, notSign⟩ := isSmallLetter_ne small
      simp only [List.mem_cons, not_or] at notSign
      simp [notBlank, notSign]
  | _ =>
      decide

/-- The first character of a factor is taken if it is one that begins a factor. -/
theorem beginFactor_eq_ok_iff
    {state next : State}
    {character : Char} :
    state.beginFactor character = .ok next ↔ Begins state character next := by
  constructor
  · intro begun
    unfold State.beginFactor at begun
    split at begun
    · next isFunction =>
        cases begun
        exact isFunction ▸ .function
    split at begun
    · next isGroup =>
        cases begun
        exact isGroup ▸ .group
    split at begun
    · next isQuote =>
        cases begun
        exact isQuote ▸ .quote
    split at begun
    · next small =>
        cases begun
        exact .atom small
    · cases begun
  · intro begins
    cases begins with
    | atom small =>
        obtain ⟨_, notSign⟩ := isSmallLetter_ne small
        simp only [List.mem_cons, not_or] at notSign
        simp [State.beginFactor, State.add, small, notSign]
    | _ =>
        rfl

/-- Behind a whole factor the product goes on, or something around it does. -/
theorem step_of_continueProduct
    {factors : List Ty}
    {outer : List Level}
    {character : Char}
    {next : State}
    (continued :
      State.continueProduct ⟨.continuation, factors, outer⟩ character = .ok next) :
    Step ⟨.continuation, factors, outer⟩ character next := by
  unfold State.continueProduct at continued
  split at continued
  · next sign =>
      cases continued
      exact .times sign
  · cases outer with
    | nil =>
        cases continued
    | cons level outer =>
        obtain ⟨before, opening⟩ := level
        cases opening with
        | domain =>
            simp only at continued
            split at continued
            · next isComma =>
                cases continued
                exact isComma ▸ .comma
            · exact .rangeAtOnce (beginFactor_eq_ok_iff.mp continued)
        | range domain =>
            simp only at continued
            split at continued
            · next closes =>
                cases continued
                exact closes ▸ .closeFunction
            · cases continued
        | group =>
            simp only at continued
            split at continued
            · next closes =>
                cases continued
                exact closes ▸ .closeGroup
            · cases continued

/-- The moves of the reader are those that are listed. -/
theorem step_eq_ok_iff
    {state next : State}
    {character : Char} :
    state.step character = .ok next ↔ Step state character next := by
  constructor
  · intro stepped
    obtain ⟨mode, factors, outer⟩ := state
    cases mode with
    | letter =>
        simp only [State.step] at stepped
        split at stepped
        · next small =>
            cases stepped
            exact .letter small
        · cases stepped
    | factor =>
        simp only [State.step] at stepped
        split at stepped
        · next isBlank =>
            cases stepped
            exact .blank (by simp) isBlank
        · exact .factor (beginFactor_eq_ok_iff.mp stepped)
    | continuation =>
        simp only [State.step] at stepped
        split at stepped
        · next isBlank =>
            cases stepped
            exact .blank (by simp) isBlank
        · exact step_of_continueProduct stepped
  · intro step
    cases step with
    | blank between isBlank =>
        obtain ⟨mode, factors, outer⟩ := state
        cases mode with
        | letter =>
            simp at between
        | _ =>
            simp [State.step, isBlank]
    | factor begins =>
        have begun := beginFactor_eq_ok_iff.mpr begins
        simp [State.step, begins.character_ne, begun]
    | letter small =>
        simp [State.step, State.add, small]
    | times sign =>
        rcases sign with rfl | rfl <;> rfl
    | rangeAtOnce begins =>
        have begun := beginFactor_eq_ok_iff.mpr begins
        simp [State.step, State.continueProduct, begins.character_ne, begun]
    | _ =>
        rfl

/-- The characters of a text lead from one state to another. -/
inductive Reads : State → List Char → State → Prop where
  | nil (state : State) : Reads state [] state
  | cons
      {state next last : State}
      {character : Char}
      {rest : List Char}
      (step : Step state character next)
      (others : Reads next rest last) :
      Reads state (character :: rest) last

/-- One character is read by itself. -/
theorem Reads.single
    {state next : State}
    {character : Char}
    (step : Step state character next) :
    Reads state [character] next :=
  .cons step (.nil next)

/-- Two texts are read one after the other. -/
theorem Reads.append
    {state middle last : State}
    {text others : List Char}
    (first : Reads state text middle)
    (second : Reads middle others last) :
    Reads state (text ++ others) last := by
  induction first with
  | nil =>
      exact second
  | cons step _ inductionHypothesis =>
      exact .cons step (inductionHypothesis second)

/-- A text is read to the end if its characters lead to a state that may end with the type. -/
theorem run_eq_ok_iff
    {position : Nat}
    {state : State}
    {text : List Char}
    {ty : Ty} :
    run position state text = .ok ty ↔
      ∃ last, Reads state text last ∧ last.finish = .ok ty := by
  induction text generalizing position state with
  | nil =>
      constructor
      · intro ended
        refine ⟨state, .nil state, ?_⟩
        cases finished : state.finish with
        | ok found =>
            simpa [run, finished] using ended
        | error expected =>
            simp [run, finished] at ended
      · intro read
        obtain ⟨last, reads, finished⟩ := read
        cases reads
        simp [run, finished]
  | cons character rest inductionHypothesis =>
      cases stepped : state.step character with
      | error expected =>
          have stuck : ¬∃ last, Reads state (character :: rest) last ∧ last.finish = .ok ty := by
            intro read
            obtain ⟨last, reads, _⟩ := read
            cases reads with
            | cons step _ =>
                simp [step_eq_ok_iff.mpr step] at stepped
          simp [run, stepped, stuck]
      | ok next =>
          simp only [run, stepped, inductionHypothesis]
          constructor
          · intro read
            obtain ⟨last, reads, finished⟩ := read
            exact ⟨last, .cons (step_eq_ok_iff.mp stepped) reads, finished⟩
          · intro read
            obtain ⟨last, reads, finished⟩ := read
            cases reads with
            | cons step others =>
                have same := step_eq_ok_iff.mpr step
                rw [stepped, Except.ok.injEq] at same
                exact ⟨last, same ▸ others, finished⟩

/-- A type ends with the text only behind a factor and outside of all brackets. -/
theorem finish_eq_ok_iff
    {state : State}
    {ty : Ty} :
    state.finish = .ok ty ↔
      state.mode = .continuation ∧ state.outer = [] ∧ product state.factors = ty := by
  obtain ⟨mode, factors, outer⟩ := state
  cases mode with
  | continuation =>
      cases outer with
      | nil =>
          simp [State.finish]
      | cons level outer =>
          obtain ⟨before, opening⟩ := level
          cases opening <;> simp [State.finish]
  | _ =>
      simp [State.finish]

end TypedLambda.Ty.Reader

namespace TypedLambda.Ty

/-- A text denotes a type if its characters lead from the start to a whole product. -/
theorem read_eq_ok_iff
    {text : String}
    {ty : Ty} :
    read text = .ok ty ↔
      ∃ factors,
        Reader.Reads Reader.start text.toList ⟨.continuation, factors, []⟩ ∧
          Reader.product factors = ty := by
  simp only [read, Reader.run_eq_ok_iff, Reader.finish_eq_ok_iff]
  constructor
  · intro readToEnd
    obtain ⟨⟨_, factors, _⟩, reads, rfl, rfl, isProduct⟩ := readToEnd
    exact ⟨factors, reads, isProduct⟩
  · intro readToEnd
    obtain ⟨factors, reads, isProduct⟩ := readToEnd
    exact ⟨_, reads, rfl, rfl, isProduct⟩

end TypedLambda.Ty
