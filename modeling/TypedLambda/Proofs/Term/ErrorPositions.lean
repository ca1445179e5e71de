import TypedLambda.Proofs.Term.ReaderSteps
import TypedLambda.Proofs.Token.Errors

namespace TypedLambda

/-!
# Where reading a term fails

An error points at what it reports. The reader reports the lexeme that it could
not take, or a name in it, or the end of the text; a name that is fused with
the letter for a binder is reported without that letter, at its own first
character. What the scan reports has been settled before.
-/

/-- What an error reports is what the text has at the position of the error. -/
def SyntaxError.PointsAt (style : Token.NameStyle) (text : String) : SyntaxError → Prop
  | .unexpectedCharacter character position => text.toList[position]? = some character
  | .unexpected _ (.token token) position => Token.StandsAt style text position token
  | .unexpected _ .endOfInput position => position = text.length
  | .unexpected _ (.character _) _ => False
  | .unknownIdentifier name position => name.toList <+: text.toList.drop position
  | .boundConstant name position => name.toList <+: text.toList.drop position
  | .emptyExpression position =>
      position = text.length ∧
        ∀ character ∈ text.toList, Token.isSeparator character = true

namespace Term.Reader

/-- The errors about a name at a position. -/
inductive RefusesName (name : String) (position : Nat) : SyntaxError → Prop where
  | unknown : RefusesName name position (.unknownIdentifier name position)
  | constant : RefusesName name position (.boundConstant name position)

/-- The errors about a lexeme. -/
inductive Refuses (lexeme : Lexeme) : SyntaxError → Prop where
  /-- Something else could have come. -/
  | token {expected : Expectation} :
      Refuses lexeme (.unexpected expected (.token lexeme.token) lexeme.position)
  /-- The identifier ends in a name that is refused. -/
  | name
      {mistake : SyntaxError}
      {name : String}
      (front : List Char)
      (spelled : lexeme.token = .identifier (String.ofList (front ++ name.toList)))
      (refuses : RefusesName name (lexeme.position + front.length) mistake) :
      Refuses lexeme mistake

variable {options : ReadingOptions} {state : State} {lexeme : Lexeme} {rest : List Lexeme}
variable {name : String} {position : Nat} {mistake : SyntaxError}

theorem refusesName_of_identifierTerm
    (failed : options.identifierTerm name position = .error mistake) :
    RefusesName name position mistake := by
  unfold ReadingOptions.identifierTerm at failed
  split at failed <;> cases failed
  exact .unknown

theorem refusesName_of_boundVariable
    (failed : options.boundVariable name position = .error mistake) :
    RefusesName name position mistake := by
  unfold ReadingOptions.boundVariable at failed
  split at failed <;> cases failed
  · exact .constant
  · exact .unknown

/-- An identifier that is refused as a whole. -/
theorem Refuses.whole
    (isName : lexeme.token = .identifier name)
    (refuses : RefusesName name lexeme.position mistake) :
    Refuses lexeme mistake := by
  refine .name [] ?_ refuses
  rw [isName, List.nil_append, String.ofList_toList]

/-- The letter for a binder stands in front of the characters fused with it. -/
theorem exists_toList_eq_cons_of_letterBinder?
    {binder : Binder}
    {fused : List Char}
    (found : letterBinder? options name rest = some (binder, fused))
    (several : fused ≠ []) :
    ∃ letter, name.toList = letter :: fused := by
  obtain ⟨names, after, _, stands⟩ :=
    letterBinder?_iff.mp ⟨fused, found, .inr ⟨several, rfl⟩⟩
  generalize isFused : [String.ofList fused] = first at stands
  cases stands with
  | alone =>
      cases isFused
  | fused _ spelled =>
      obtain rfl := String.ofList_injective (List.cons.inj isFused).1
      exact ⟨_, spelled⟩

theorem refuses_of_beginOperand
    (failed : state.beginOperand options lexeme rest = .error mistake) :
    Refuses lexeme mistake := by
  unfold State.beginOperand at failed
  split at failed
  · cases failed
  · cases failed
  · next name isName =>
      split at failed
      · cases failed
      · next binder fused several found =>
          simp only [Outcome.bind_eq_error_iff] at failed
          rcases failed with refused | ⟨_, _, ⟨⟩⟩
          obtain ⟨letter, spelled⟩ := exists_toList_eq_cons_of_letterBinder? found several
          refine .name [letter] ?_ (refusesName_of_boundVariable refused)
          rw [isName, String.toList_ofList, List.singleton_append, ← spelled,
            String.ofList_toList]
      · simp only [Outcome.bind_eq_error_iff] at failed
        rcases failed with refused | ⟨_, _, ⟨⟩⟩
        exact .whole isName (refusesName_of_identifierTerm refused)
  · cases failed
  · cases failed
  · cases failed
    exact .token

theorem refuses_of_continueBinding
    {binder : Binder}
    {bound : List Identifier}
    (failed : state.continueBinding options binder bound lexeme = .error mistake) :
    Refuses lexeme mistake := by
  unfold State.continueBinding at failed
  split at failed
  · next isName =>
      simp only [Outcome.bind_eq_error_iff] at failed
      rcases failed with refused | ⟨_, _, ⟨⟩⟩
      exact .whole isName (refusesName_of_boundVariable refused)
  · cases failed
    exact .token
  · cases failed
  · cases failed
    exact .token

theorem refuses_of_refuse
    (failed : state.refuse lexeme = .error mistake) :
    Refuses lexeme mistake := by
  cases failed
  exact .token

theorem refuses_of_beginRelation
    {term : Term}
    {comparison : Term → Pending}
    (failed : state.beginRelation term comparison lexeme = .error mistake) :
    Refuses lexeme mistake := by
  unfold State.beginRelation at failed
  split at failed
  · cases failed
  · exact refuses_of_refuse failed

theorem refuses_of_continueOperand
    {term : Term}
    (failed : state.continueOperand term lexeme = .error mistake) :
    Refuses lexeme mistake := by
  unfold State.continueOperand at failed
  split at failed
  · cases failed
  · exact refuses_of_beginRelation failed
  · exact refuses_of_beginRelation failed
  · cases failed
  · cases failed
  · cases failed
  · cases failed
  · cases failed
  · cases failed
  · exact refuses_of_refuse failed

/-- A step fails with an error about the lexeme it takes. -/
theorem refuses_of_step
    (failed : state.step options lexeme rest = .error mistake) :
    Refuses lexeme mistake := by
  unfold State.step at failed
  split at failed
  · exact refuses_of_beginOperand failed
  · exact refuses_of_continueBinding failed
  · exact refuses_of_continueOperand failed

/-- A run fails with an error about one of the lexemes or about their end. -/
theorem run_eq_error_cases
    {finish : Nat}
    {lexemes : List Lexeme}
    (failed : run options finish state lexemes = .error mistake) :
    (∃ lexeme ∈ lexemes, Refuses lexeme mistake) ∨
      ∃ expected, mistake = .unexpected expected .endOfInput finish := by
  induction lexemes generalizing state with
  | nil =>
      rw [run] at failed
      unfold State.finish at failed
      split at failed <;> cases failed <;> exact .inr ⟨_, rfl⟩
  | cons lexeme rest inductionHypothesis =>
      rw [run] at failed
      split at failed
      · rcases inductionHypothesis failed with ⟨other, member, refuses⟩ | atEnd
        · exact .inl ⟨other, List.mem_cons_of_mem _ member, refuses⟩
        · exact .inr atEnd
      · next refused =>
          cases failed
          exact .inl ⟨lexeme, List.mem_cons_self, refuses_of_step refused⟩

end Term.Reader

section Texts

variable {style : Token.NameStyle} {text : String} {mistake : SyntaxError}

/-- What a scan reports is what it stopped at. -/
theorem pointsAt_of_refusal
    (refusal : Token.Refusal 0 text.toList mistake) :
    mistake.position ≤ text.length ∧ mistake.PointsAt style text := by
  cases refusal with
  | @character before after found isText =>
      have length := congrArg List.length isText
      rw [List.length_append, List.length_cons, String.length_toList] at length
      rw [Nat.zero_add]
      constructor
      · rw [SyntaxError.position]
        omega
      · rw [SyntaxError.PointsAt, isText, List.getElem?_append_right (Nat.le_refl _), Nat.sub_self]
        rfl
  | ending =>
      rw [Nat.zero_add, String.length_toList]
      exact ⟨Nat.le_refl _, rfl⟩

/-- What is reported of a lexeme of the text is what stands at its position or in it. -/
theorem pointsAt_of_refuses
    {lexeme : Lexeme}
    (stands : Token.StandsAt style text lexeme.position lexeme.token)
    (refuses : Term.Reader.Refuses lexeme mistake) :
    mistake.position ≤ text.length ∧ mistake.PointsAt style text := by
  cases refuses with
  | token =>
      exact ⟨Nat.le_of_lt stands.position_lt, stands⟩
  | @name _ name front spelled refuses =>
      obtain ⟨written, isSpelling, _, ⟨after, isText⟩⟩ := stands.spelled
      obtain rfl : written = front ++ name.toList := by
        simpa [spelled, Token.spellings] using isSpelling
      have behind :
          text.toList.drop (lexeme.position + front.length) = name.toList ++ after := by
        rw [← List.drop_drop, ← isText, List.append_assoc, List.drop_left]
      have fits : lexeme.position + front.length ≤ text.length := by
        have inside := stands.position_lt
        have length := congrArg List.length isText
        simp only [List.length_append, List.length_drop, String.length_toList] at length
        omega
      cases refuses with
      | unknown | constant =>
          exact ⟨fits, after, behind.symm⟩

end Texts

namespace Term

/--
An error in the text of a term points into the text, at what it reports: at the
character or the lexeme that did not fit, at the name without a convention or
of a constant that is to be bound, or at the end.
-/
theorem read_eq_error_pointsAt
    {options : ReadingOptions}
    {text : String}
    {mistake : SyntaxError}
    (refused : read options text = .error mistake) :
    mistake.position ≤ text.length ∧ mistake.PointsAt options.style text := by
  rcases Outcome.bind_eq_error_iff.mp refused with notScanned | ⟨scan, scanned, failed⟩
  · exact pointsAt_of_refusal (Token.refusal_of_scanFrom notScanned)
  have isEnd := Token.finish_eq_length scanned
  split at failed
  · next noLexemes =>
      cases failed
      exact ⟨Nat.le_of_eq isEnd, isEnd,
        Token.isSeparator_of_lexemes_eq_nil scanned (List.isEmpty_iff.mp noLexemes)⟩
  · rcases Reader.run_eq_error_cases failed with ⟨lexeme, member, refuses⟩ | ⟨expected, rfl⟩
    · exact pointsAt_of_refuses (Token.standsAt_of_mem_lexemes scanned member) refuses
    · exact ⟨Nat.le_of_eq isEnd, isEnd⟩

/-- The name ab is a constant, and it is fused with the letter for an abstraction. -/
theorem read_eq_error_pointsAt_fusedName :
    read ⟨true, .multiLetter, .standard⟩ "p & Lab.P(x)" = .error (.boundConstant "ab" 5) ∧
      "ab".toList <+: "p & Lab.P(x)".toList.drop 5 := by
  have refused :
      read ⟨true, .multiLetter, .standard⟩ "p & Lab.P(x)" = .error (.boundConstant "ab" 5) :=
    rfl
  exact ⟨refused, (read_eq_error_pointsAt refused).2⟩

end Term

end TypedLambda
