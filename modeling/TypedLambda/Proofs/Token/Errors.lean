import TypedLambda.Proofs.Token.Spans

namespace TypedLambda.Token

/-!
# Where scanning fails

A scan stops at a character that neither starts a token nor goes on with one,
or at the end of a text that breaks off within an arrow. What it reports is
that character, or the end. Where it does not stop, every lexeme is written in
the text at its position.
-/

/-- What a scan can report of a text that starts at a position. -/
inductive Refusal (position : Nat) (text : List Char) : SyntaxError → Prop where
  /-- A character that does not fit, with what stands around it. -/
  | character
      (before : List Char)
      {after : List Char}
      {found : Char}
      (isText : text = before ++ found :: after) :
      Refusal position text (.unexpectedCharacter found (position + before.length))
  /-- The end of the text. -/
  | ending {expected : Expectation} :
      Refusal position text (.unexpected expected .endOfInput (position + text.length))

variable {style : NameStyle} {position passed : Nat} {first : Char}
variable {rest : List Char} {mistake : SyntaxError}

/-- What is reported of the rest of a text is reported of the text. -/
theorem Refusal.append
    (earlier : List Char)
    (refusal : Refusal (position + earlier.length) rest mistake) :
    Refusal position (earlier ++ rest) mistake := by
  cases refusal with
  | character before isText =>
      rw [Nat.add_assoc, ← List.length_append, isText]
      exact .character (earlier ++ before) (List.append_assoc _ _ _).symm
  | ending =>
      rw [Nat.add_assoc, ← List.length_append]
      exact .ending

/-- What is reported of the characters behind the first is reported of the text. -/
theorem Refusal.cons
    (refusal : Refusal (position + 1) rest mistake) :
    Refusal position (first :: rest) mistake :=
  refusal.append [first]

/-- An arrow is refused where its head should be. -/
theorem refusal_of_demandArrowHead
    (failed : demandArrowHead position rest = .error mistake) :
    Refusal position rest mistake := by
  unfold demandArrowHead at failed
  split at failed
  · cases failed
    exact .ending
  · next found after =>
      split at failed
      · cases failed
      · cases failed
        exact .character [] rfl

/-- A token is refused at its first character or at one behind it. -/
theorem refusal_of_front
    (failed : front style position first rest = .error mistake) :
    Refusal position (first :: rest) mistake := by
  unfold front at failed
  split at failed
  · cases failed
  split at failed
  · simp only [Outcome.bind_eq_error_iff] at failed
    rcases failed with noHead | ⟨_, _, ⟨⟩⟩
    exact (refusal_of_demandArrowHead noHead).cons
  split at failed
  · split at failed
    · simp only [Outcome.bind_eq_error_iff] at failed
      rcases failed with noHead | ⟨_, _, ⟨⟩⟩
      exact (refusal_of_demandArrowHead noHead).cons.cons
    · cases failed
    · cases failed
  split at failed
  · cases failed
  · cases failed
    exact .character [] rfl

/-- A text is refused at one of its characters or at its end. -/
theorem refusal_of_scanFrom
    (failed : scanFrom style position passed rest = .error mistake) :
    Refusal position rest mistake := by
  induction rest generalizing position passed with
  | nil =>
      cases failed
  | cons first rest inductionHypothesis =>
      cases passed with
      | succ passed =>
          rw [scanFrom] at failed
          exact (inductionHypothesis failed).cons
      | zero =>
          rw [scanFrom] at failed
          split at failed
          · exact (inductionHypothesis failed).cons
          · simp only [Outcome.bind_eq_error_iff] at failed
            rcases failed with noToken | ⟨_, _, failedLater | ⟨_, _, ⟨⟩⟩⟩
            · exact refusal_of_front noToken
            · exact (inductionHypothesis failedLater).cons

section Lexemes

variable {text : String} {result : Scan} {token : Token}

/-- The scan finds a token at a position, and the text spells it there. -/
structure StandsAt (style : NameStyle) (text : String) (position : Nat) (token : Token) : Prop where
  found : ∃ result, scan style text = .ok result ∧ ⟨token, position⟩ ∈ result.lexemes
  spelled :
    ∃ written ∈ token.spellings, written ≠ [] ∧ written <+: text.toList.drop position

/-- A token that stands somewhere stands in front of the end. -/
theorem StandsAt.position_lt
    (stands : StandsAt style text position token) :
    position < text.length := by
  obtain ⟨written, _, nonempty, ⟨after, isText⟩⟩ := stands.spelled
  have rest : text.toList.drop position ≠ [] := by
    rw [← isText]
    exact List.append_ne_nil_of_left_ne_nil nonempty after
  have before : position < text.toList.length := by
    simpa using rest
  exact String.length_toList ▸ before

/-- Every lexeme of a scan stands at its position. -/
theorem standsAt_of_mem_lexemes
    (scanned : scan style text = .ok result)
    {lexeme : Lexeme}
    (member : lexeme ∈ result.lexemes) :
    StandsAt style text lexeme.position lexeme.token := by
  obtain ⟨spans, pieces, rfl⟩ := exists_pieces_of_scanFrom scanned
  have divides := pieces.divides
  obtain ⟨span, isSpan, rfl⟩ := List.mem_map.mp member
  obtain ⟨before, after, isText, place⟩ := divides.placed span isSpan
  refine ⟨⟨_, scanned, member⟩, span.characters, divides.spells span isSpan,
    divides.nonempty span isSpan, after, ?_⟩
  rw [place, Nat.zero_add, isText, List.drop_left]

/-- The scan ends where the text does. -/
theorem finish_eq_length
    (scanned : scan style text = .ok result) :
    result.finish = text.length := by
  obtain ⟨spans, _, rfl⟩ := exists_pieces_of_scanFrom scanned
  rw [Nat.zero_add, String.length_toList]

/-- A text without lexemes consists of separators. -/
theorem isSeparator_of_lexemes_eq_nil
    (scanned : scan style text = .ok result)
    (noLexemes : result.lexemes = []) :
    ∀ character ∈ text.toList, isSeparator character = true := by
  obtain ⟨spans, pieces, rfl⟩ := exists_pieces_of_scanFrom scanned
  obtain rfl : spans = [] := List.map_eq_nil_iff.mp noLexemes
  intro character member
  obtain ⟨before, after, isText⟩ := List.append_of_mem member
  exact pieces.divides.separated before character after isText (by simp)

end Lexemes

end TypedLambda.Token
