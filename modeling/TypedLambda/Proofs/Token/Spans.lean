import TypedLambda.Proofs.Token.Front

namespace TypedLambda

/-!
# The spans of a scanned text

A text that is scanned consists of the spans of its lexemes, one after the
other, and of separators. Each span is a way to write its token. Separators
that are put between two spans change no token and move the spans behind them.
-/

/-- A lexeme after some characters have been put into the text at a position. -/
def Lexeme.moved (cut count : Nat) (lexeme : Lexeme) : Lexeme :=
  if lexeme.position < cut then lexeme else ⟨lexeme.token, lexeme.position + count⟩

namespace Token

/-- A lexeme together with the characters that it consists of. -/
structure Span extends Lexeme where
  characters : List Char

namespace Span

/-- The position behind the last character. -/
def finish (span : Span) : Nat :=
  span.position + span.characters.length

/-- A span after some characters have been put into the text at a position. -/
def moved (cut count : Nat) (span : Span) : Span :=
  ⟨span.toLexeme.moved cut count, span.characters⟩

end Span

/--
The spans of a text that starts at a position. None starts before the one in
front of it has ended, each stands where its lexeme says and is a way to write
its token, and all characters outside of them are separators.
-/
structure Divides (position : Nat) (text : List Char) (spans : List Span) : Prop where
  ordered : spans.Pairwise fun earlier later => earlier.finish ≤ later.position
  placed :
    ∀ span ∈ spans, ∃ before after,
      text = before ++ (span.characters ++ after) ∧ span.position = position + before.length
  spells : ∀ span ∈ spans, span.characters ∈ span.token.spellings
  nonempty : ∀ span ∈ spans, span.characters ≠ []
  separated :
    ∀ before character after,
      text = before ++ character :: after →
        (∀ span ∈ spans,
          position + before.length < span.position ∨ span.finish ≤ position + before.length) →
          isSeparator character = true

/-- A text, starting at a position, is cut into separators and spans. -/
inductive Pieces (style : NameStyle) : Nat → List Char → List Span → Prop where
  | finish {position : Nat} : Pieces style position [] []
  | separator
      {position : Nat}
      {character : Char}
      {rest : List Char}
      {spans : List Span}
      (separates : isSeparator character = true)
      (pieces : Pieces style (position + 1) rest spans) :
      Pieces style position (character :: rest) spans
  | token
      {position : Nat}
      {first : Char}
      {more rest : List Char}
      {token : Token}
      {spans : List Span}
      (starts : Starts style (first :: more) rest token)
      (pieces : Pieces style (position + 1 + more.length) rest spans) :
      Pieces style position (first :: (more ++ rest)) (⟨⟨token, position⟩, first :: more⟩ :: spans)

/-- No token starts with a separator. -/
theorem Starts.isSeparator_eq_false
    {style : NameStyle}
    {first : Char}
    {more rest : List Char}
    {token : Token}
    (starts : Starts style (first :: more) rest token) :
    isSeparator first = false := by
  cases starts with
  | symbol found =>
      exact isSeparator_eq_false_of_ofCharacter? found
  | identifier letter =>
      exact isSeparator_eq_false_of_isLetter letter
  | _ =>
      rfl

variable {style : NameStyle} {position : Nat} {text : List Char} {spans : List Span}

/-- What is scanned is cut into pieces. -/
theorem exists_pieces_of_scanFrom
    {position : Nat}
    {text : List Char}
    {result : Scan}
    (scanned : scanFrom style position 0 text = .ok result) :
    ∃ spans,
      Pieces style position text spans ∧
        result = ⟨spans.map Span.toLexeme, position + text.length⟩ := by
  -- By recursion on the length: a token takes several characters at once.
  cases text with
  | nil =>
      cases scanned
      exact ⟨[], .finish, rfl⟩
  | cons character rest =>
      cases separates : isSeparator character with
      | true =>
          rw [scanFrom, if_pos separates] at scanned
          obtain ⟨spans, pieces, rfl⟩ := exists_pieces_of_scanFrom scanned
          refine ⟨spans, .separator separates pieces, ?_⟩
          simp only [List.length_cons, Scan.mk.injEq, true_and]
          omega
      | false =>
          obtain ⟨token, further, remaining, found, scannedRest, rfl⟩ :=
            scanFrom_cons_cases separates scanned
          obtain ⟨more, after, rfl, rfl, starts⟩ := front_eq_ok_iff.mp found
          rw [scanFrom_passed] at scannedRest
          obtain ⟨spans, pieces, rfl⟩ := exists_pieces_of_scanFrom scannedRest
          refine ⟨_, .token starts pieces, ?_⟩
          simp only [List.map_cons, List.length_cons, List.length_append, Scan.mk.injEq, true_and]
          omega
termination_by text.length

/-- What is cut into pieces is scanned. -/
theorem Pieces.scanFrom_eq
    (pieces : Pieces style position text spans) :
    scanFrom style position 0 text =
      .ok ⟨spans.map Span.toLexeme, position + text.length⟩ := by
  induction pieces with
  | finish =>
      rfl
  | separator separates _ inductionHypothesis =>
      rw [scanFrom, if_pos separates, inductionHypothesis, List.length_cons]
      congr 2
      omega
  | @token position first more rest token spans starts _ inductionHypothesis =>
      have found : front style position first (more ++ rest) = .ok (token, more.length) :=
        front_eq_ok_iff.mpr ⟨more, rest, rfl, rfl, starts⟩
      have length :
          position + (first :: (more ++ rest)).length =
            position + 1 + more.length + rest.length := by
        simp only [List.length_cons, List.length_append]
        omega
      simp only [scanFrom, starts.isSeparator_eq_false, Bool.false_eq_true, ↓reduceIte, found,
        Outcome.ok_bind, scanFrom_passed, inductionHypothesis, length]
      rfl

theorem Span.moved_of_lt
    {cut count : Nat}
    {span : Span}
    (before : span.position < cut) :
    span.moved cut count = span := by
  simp [moved, Lexeme.moved, before]

theorem Span.moved_of_le
    {cut count : Nat}
    {span : Span}
    (behind : cut ≤ span.position) :
    span.moved cut count = ⟨⟨span.token, span.position + count⟩, span.characters⟩ := by
  simp [moved, Lexeme.moved, Nat.not_lt.mpr behind]

/-- Where a text starts makes no difference to its pieces. -/
theorem Pieces.moved
    {cut : Nat}
    (pieces : Pieces style position text spans)
    (behind : cut ≤ position)
    (count : Nat) :
    Pieces style (position + count) text (spans.map (Span.moved cut count)) := by
  induction pieces with
  | finish =>
      exact .finish
  | separator separates _ inductionHypothesis =>
      have others := inductionHypothesis (Nat.le_succ_of_le behind)
      rw [Nat.add_right_comm] at others
      exact .separator separates others
  | @token position first more rest token spans starts _ inductionHypothesis =>
      have others := inductionHypothesis (by omega)
      rw [List.map_cons, Span.moved_of_le behind]
      refine .token starts ?_
      convert others using 1
      omega

/-- Separators in front of a text are no part of any span. -/
theorem Pieces.separators
    {blanks : List Char}
    (separate : ∀ character ∈ blanks, isSeparator character = true)
    (pieces : Pieces style (position + blanks.length) text spans) :
    Pieces style position (blanks ++ text) spans := by
  induction blanks generalizing position with
  | nil =>
      exact pieces
  | cons blank blanks inductionHypothesis =>
      obtain ⟨separates, others⟩ := List.forall_mem_cons.mp separate
      refine .separator separates (inductionHypothesis others ?_)
      rwa [List.length_cons, Nat.add_comm blanks.length, ← Nat.add_assoc] at pieces

/-- Of two ways to split a text, the longer front goes on where the shorter one ends. -/
theorem exists_between
    {before after more rest : List Char}
    (same : before ++ after = more ++ rest)
    (fits : more.length ≤ before.length) :
    ∃ between, before = more ++ between ∧ rest = between ++ after := by
  obtain ⟨between, rfl⟩ := List.prefix_of_prefix_length_le ⟨rest, rfl⟩ ⟨after, same⟩ fits
  rw [List.append_assoc, List.append_cancel_left_eq] at same
  exact ⟨between, rfl, same.symm⟩

/-- Separators in front of a text move all its spans. -/
theorem Pieces.insertFront
    {blanks : List Char}
    (separate : ∀ character ∈ blanks, isSeparator character = true)
    (pieces : Pieces style position text spans) :
    Pieces style position (blanks ++ text) (spans.map (Span.moved position blanks.length)) :=
  .separators separate (pieces.moved (Nat.le_refl position) blanks.length)

/-- A text into which separators have been put starts as before or with a separator. -/
theorem head?_inserted
    {blanks : List Char}
    (before after : List Char)
    (separate : ∀ character ∈ blanks, isSeparator character = true) :
    ∀ next ∈ (before ++ (blanks ++ after)).head?,
      next ∈ (before ++ after).head? ∨ isSeparator next = true := by
  intro next isNext
  cases before with
  | nil =>
      cases blanks with
      | nil =>
          exact .inl isNext
      | cons blank blanks =>
          cases isNext
          exact .inr (separate _ (by simp))
  | cons _ _ =>
      exact .inl isNext

/-- Separators between two spans move the spans behind them. -/
theorem Pieces.insert
    {blanks before after : List Char}
    (separate : ∀ character ∈ blanks, isSeparator character = true)
    (pieces : Pieces style position (before ++ after) spans)
    (apart :
      ∀ span ∈ spans,
        span.finish ≤ position + before.length ∨ position + before.length ≤ span.position) :
    Pieces style position (before ++ (blanks ++ after))
      (spans.map (Span.moved (position + before.length) blanks.length)) := by
  generalize isText : before ++ after = text at pieces
  induction pieces generalizing before with
  | finish =>
      obtain ⟨rfl, rfl⟩ := List.append_eq_nil_iff.mp isText
      exact Pieces.finish.insertFront separate
  | @separator position character rest spans separates pieces inductionHypothesis =>
      cases before with
      | nil =>
          have whole := Pieces.separator separates pieces
          rw [← isText] at whole
          exact whole.insertFront separate
      | cons first before =>
          obtain ⟨rfl, rfl⟩ := List.cons.inj isText
          have cut : position + (first :: before).length = position + 1 + before.length := by
            rw [List.length_cons]
            omega
          rw [cut] at apart ⊢
          exact .separator separates (inductionHypothesis apart rfl)
  | @token position first more rest token spans starts pieces inductionHypothesis =>
      cases before with
      | nil =>
          have whole := Pieces.token starts pieces
          rw [← isText] at whole
          exact whole.insertFront separate
      | cons character before =>
          rw [List.cons_append, List.cons.injEq] at isText
          obtain ⟨rfl, isRest⟩ := isText
          obtain ⟨place, places⟩ := List.forall_mem_cons.mp apart
          -- The cut is not in front of this span, hence behind it.
          have fits : more.length ≤ before.length := by
            simp only [Span.finish, List.length_cons] at place
            omega
          obtain ⟨between, rfl, rfl⟩ := exists_between isRest fits
          have cut :
              position + (character :: (more ++ between)).length =
                position + 1 + more.length + between.length := by
            simp only [List.length_cons, List.length_append]
            omega
          rw [cut] at places ⊢
          have others := inductionHypothesis places rfl
          have stays : Span.moved (position + 1 + more.length + between.length) blanks.length
              ⟨⟨token, position⟩, character :: more⟩ = ⟨⟨token, position⟩, character :: more⟩ :=
            Span.moved_of_lt (by simp only; omega)
          rw [List.map_cons, stays, List.cons_append, List.append_assoc]
          exact .token (starts.change_rest (head?_inserted between after separate)) others

/-- The spans of a text stay inside of it. -/
theorem Divides.le_position
    (divides : Divides position text spans)
    {span : Span}
    (isSpan : span ∈ spans) :
    position ≤ span.position ∧ span.finish ≤ position + text.length := by
  obtain ⟨before, after, rfl, place⟩ := divides.placed span isSpan
  simp only [Span.finish, List.length_append]
  omega

/-- A separator in front of a text is no part of any span. -/
theorem Divides.separator
    {character : Char}
    (separates : isSeparator character = true)
    (divides : Divides (position + 1) text spans) :
    Divides position (character :: text) spans where
  ordered := divides.ordered
  placed := by
    intro span isSpan
    obtain ⟨before, after, rfl, place⟩ := divides.placed span isSpan
    refine ⟨character :: before, after, rfl, ?_⟩
    rw [place, List.length_cons]
    omega
  spells := divides.spells
  nonempty := divides.nonempty
  separated := by
    intro before other after isText outside
    cases before with
    | nil =>
        obtain ⟨rfl, rfl⟩ := List.cons.inj isText
        exact separates
    | cons first before =>
        obtain ⟨rfl, isRest⟩ := List.cons.inj isText
        refine divides.separated before other after isRest fun span isSpan => ?_
        have place := outside span isSpan
        rw [List.length_cons] at place
        omega

/-- A way to write a token in front of a text is one more span. -/
theorem Divides.token
    {token : Token}
    {written rest : List Char}
    (spelled : written ∈ token.spellings)
    (nonempty : written ≠ [])
    (divides : Divides (position + written.length) rest spans) :
    Divides position (written ++ rest) (⟨⟨token, position⟩, written⟩ :: spans) where
  ordered := List.pairwise_cons.mpr
    ⟨fun span isSpan => (divides.le_position isSpan).1, divides.ordered⟩
  placed := by
    refine List.forall_mem_cons.mpr ⟨⟨[], rest, rfl, rfl⟩, fun span isSpan => ?_⟩
    obtain ⟨before, after, rfl, place⟩ := divides.placed span isSpan
    refine ⟨written ++ before, after, (List.append_assoc _ _ _).symm, ?_⟩
    rw [place, List.length_append, Nat.add_assoc]
  spells := List.forall_mem_cons.mpr ⟨spelled, divides.spells⟩
  nonempty := List.forall_mem_cons.mpr ⟨nonempty, divides.nonempty⟩
  separated := by
    intro before character after isText outside
    obtain ⟨place, places⟩ := List.forall_mem_cons.mp outside
    have fits : written.length ≤ before.length := by
      simp only [Span.finish] at place
      omega
    obtain ⟨between, rfl, isRest⟩ := exists_between isText.symm fits
    refine divides.separated between character after isRest fun span isSpan => ?_
    have place := places span isSpan
    rw [List.length_append] at place
    omega

/-- Pieces are spans with separators between them. -/
theorem Pieces.divides
    (pieces : Pieces style position text spans) :
    Divides position text spans := by
  induction pieces with
  | finish =>
      exact ⟨.nil, by simp, by simp, by simp, by simp⟩
  | separator separates _ inductionHypothesis =>
      exact inductionHypothesis.separator separates
  | token starts _ inductionHypothesis =>
      refine Divides.token starts.mem_spellings (by simp) ?_
      convert inductionHypothesis using 1
      rw [List.length_cons]
      omega

/-- The positions of spans increase, and all of them are in front of the end of the text. -/
theorem Divides.ascending
    (divides : Divides position text spans) :
    (spans.map (fun span => span.position) ++ [position + text.length]).Pairwise (· < ·) := by
  have advances {span : Span} (isSpan : span ∈ spans) : span.position < span.finish := by
    have nonempty := List.length_pos_iff.mpr (divides.nonempty span isSpan)
    simp only [Span.finish]
    omega
  refine List.pairwise_append.mpr ⟨List.pairwise_map.mpr ?_, by simp, ?_⟩
  · refine divides.ordered.imp_of_mem fun isSpan _ inOrder => ?_
    exact Nat.lt_of_lt_of_le (advances isSpan) inOrder
  · simp only [List.forall_mem_map, List.forall_mem_singleton]
    exact fun span isSpan => Nat.lt_of_lt_of_le (advances isSpan) (divides.le_position isSpan).2

/--
A scan loses nothing and invents nothing. The lexemes stand for spans that
divide the text, in ascending positions, and the scan ends where the text ends.
Separators put into the text anywhere but inside of a span change no token, and
move the positions behind them by their number.
-/
theorem scan_eq_ok_divides
    {style : NameStyle}
    {text : String}
    {result : Scan}
    (scanned : scan style text = .ok result) :
    ∃ spans,
      result.lexemes = spans.map Span.toLexeme ∧
        Divides 0 text.toList spans ∧
        (result.lexemes.map Lexeme.position ++ [result.finish]).Pairwise (· < ·) ∧
        result.finish = text.length ∧
        ∀ before blanks after,
          text.toList = before ++ after →
            (∀ character ∈ blanks, isSeparator character = true) →
              (∀ span ∈ spans, span.finish ≤ before.length ∨ before.length ≤ span.position) →
                scan style (String.ofList (before ++ (blanks ++ after))) =
                  .ok ⟨result.lexemes.map (Lexeme.moved before.length blanks.length),
                    result.finish + blanks.length⟩ := by
  obtain ⟨spans, pieces, rfl⟩ := exists_pieces_of_scanFrom scanned
  have divides := pieces.divides
  rw [Nat.zero_add]
  refine ⟨spans, rfl, divides, ?_, String.length_toList, ?_⟩
  · simpa [List.map_map, Function.comp_def] using divides.ascending
  · intro before blanks after isText separate apart
    rw [isText] at pieces ⊢
    have inserted := pieces.insert separate (by simpa using apart)
    rw [scan, String.toList_ofList, inserted.scanFrom_eq]
    simp only [Nat.zero_add, List.map_map, List.length_append, Except.ok.injEq, Scan.mk.injEq]
    refine ⟨rfl, ?_⟩
    omega

/-- In the text "p<->x1'" a blank and a line end go between the arrow and the second name. -/
theorem scan_eq_ok_divides_arrow :
    scan .singleLetter "p<->x1'" =
        .ok ⟨[⟨.identifier "p", 0⟩, ⟨.connective .biconditional, 1⟩, ⟨.identifier "x1'", 4⟩], 7⟩ ∧
      (∃ spans, Divides 0 "p<->x1'".toList spans) ∧
      scan .singleLetter "p<-> \nx1'" =
        .ok ⟨[⟨.identifier "p", 0⟩, ⟨.connective .biconditional, 1⟩, ⟨.identifier "x1'", 6⟩], 9⟩ := by
  have scanned :
      scan .singleLetter "p<->x1'" =
        .ok ⟨[⟨.identifier "p", 0⟩, ⟨.connective .biconditional, 1⟩,
          ⟨.identifier "x1'", 4⟩], 7⟩ := by
    rfl
  obtain ⟨spans, areSpans, divides, _, _, inserted⟩ := scan_eq_ok_divides scanned
  refine ⟨scanned, ⟨spans, divides⟩,
    inserted ['p', '<', '-', '>'] [' ', '\n'] ['x', '1', '\x27'] rfl
      (by simp [isSeparator]) ?_⟩
  intro span isSpan
  have isLexeme := areSpans ▸ List.mem_map_of_mem (f := Span.toLexeme) isSpan
  have spelled := divides.spells span isSpan
  obtain ⟨⟨token, position⟩, characters⟩ := span
  simp only [List.mem_cons, Lexeme.mk.injEq, List.not_mem_nil, or_false] at isLexeme
  rcases isLexeme with ⟨rfl, rfl⟩ | ⟨rfl, rfl⟩ | ⟨rfl, rfl⟩
  · obtain rfl : characters = ['p'] := by simpa [spellings] using spelled
    exact .inl (by decide)
  · obtain rfl | rfl : characters = ['↔'] ∨ characters = ['<', '-', '>'] := by
      simpa [spellings] using spelled
    · exact .inl (by decide)
    · exact .inl (by decide)
  · exact .inr (Nat.le_refl _)

end Token

end TypedLambda
