import TypedLambda.Proofs.Token.Scan

namespace TypedLambda.Token

/-!
# How a token starts a text

Every way in which characters are taken as a token is listed here once. What
comes behind the characters matters only through its first character, and only
for `<` and for identifiers. In front of a separator or of the end of a text
nothing is taken differently.
-/

/-- The ways to write a token. -/
def spellings : Token → List (List Char)
  | .binder .lambda => [['λ'], ['\\']]
  | .binder .universal => [['∀']]
  | .binder .existential => [['∃']]
  | .binder .description => [['ι']]
  | .connective .conjunction => [['∧'], ['&']]
  | .connective .disjunction => [['∨'], ['|']]
  | .connective .conditional => [['→'], ['-', '>']]
  | .connective .biconditional => [['↔'], ['<', '-', '>']]
  | .relation .subset => [['⊆'], ['<', '=']]
  | .relation .properSubset => [['⊂'], ['<']]
  | .equals => [['=']]
  | .negation => [['¬'], ['~']]
  | .dot => [['.']]
  | .comma => [[',']]
  | .openParenthesis => [['(']]
  | .closeParenthesis => [[')']]
  | .openBracket => [['[']]
  | .closeBracket => [[']']]
  | .identifier name => [name.toList]

/-- The characters of a text are a token, with the rest of the text behind them. -/
inductive Starts (style : NameStyle) : List Char → List Char → Token → Prop where
  /-- A character is a token by itself. -/
  | symbol
      {character : Char}
      {rest : List Char}
      {token : Token}
      (found : ofCharacter? character = some token) :
      Starts style [character] rest token
  | conditional {rest : List Char} :
      Starts style ['-', '>'] rest (.connective .conditional)
  | biconditional {rest : List Char} :
      Starts style ['<', '-', '>'] rest (.connective .biconditional)
  | subset {rest : List Char} :
      Starts style ['<', '='] rest (.relation .subset)
  /-- Nothing that makes `<` a longer token comes behind it. -/
  | properSubset
      {rest : List Char}
      (ends : ∀ next ∈ rest.head?, next ≠ '-' ∧ next ≠ '=') :
      Starts style ['<'] rest (.relation .properSubset)
  /-- A letter with all that continues the name, and all primes behind it. -/
  | identifier
      {first : Char}
      {word primes rest : List Char}
      (letter : Text.isLetter first = true)
      (notSingle : ofCharacter? first = none)
      (continuing : ∀ character ∈ word, style.continues character = true)
      (arePrimes : ∀ character ∈ primes, isPrime character = true)
      (ends :
        ∀ next ∈ rest.head?,
          isPrime next = false ∧ (primes = [] → style.continues next = false)) :
      Starts style (first :: (word ++ primes)) rest
        (.identifier (String.ofList (first :: (word ++ primes))))

variable {style : NameStyle} {position further : Nat} {character : Char}
variable {written rest after : List Char} {token : Token}

/-- A character that is a token by itself is one of the ways to write that token. -/
theorem mem_spellings_of_ofCharacter?
    (found : ofCharacter? character = some token) :
    [character] ∈ token.spellings := by
  unfold ofCharacter? at found
  split at found <;> cases found <;> simp [spellings]

/-- What is taken as a token is one of the ways to write it. -/
theorem Starts.mem_spellings
    (starts : Starts style written rest token) :
    written ∈ token.spellings := by
  cases starts with
  | symbol found =>
      exact mem_spellings_of_ofCharacter? found
  | identifier =>
      simp [spellings]
  | _ =>
      simp [spellings]

/-- A separator neither continues a token nor makes it a longer one. -/
theorem ends_of_isSeparator
    (style : NameStyle)
    (separates : isSeparator character = true) :
    style.continues character = false ∧ isPrime character = false ∧
      character ≠ '-' ∧ character ≠ '=' := by
  simp only [isSeparator, Bool.or_eq_true, beq_iff_eq] at separates
  rcases separates with ((rfl | rfl) | rfl) | rfl <;> cases style <;> decide +kernel

/--
Characters are taken as the same token in front of another rest if this starts
like the old one or with a separator.
-/
theorem Starts.change_rest
    (starts : Starts style written rest token)
    (similar : ∀ next ∈ after.head?, next ∈ rest.head? ∨ isSeparator next = true) :
    Starts style written after token := by
  cases starts with
  | symbol found =>
      exact .symbol found
  | conditional =>
      exact .conditional
  | biconditional =>
      exact .biconditional
  | subset =>
      exact .subset
  | properSubset ends =>
      refine .properSubset fun next isNext => ?_
      rcases similar next isNext with same | separates
      · exact ends next same
      · exact (ends_of_isSeparator style separates).2.2
  | identifier letter notSingle continuing arePrimes ends =>
      refine .identifier letter notSingle continuing arePrimes fun next isNext => ?_
      rcases similar next isNext with same | separates
      · exact ends next same
      · obtain ⟨stops, noPrime, _⟩ := ends_of_isSeparator style separates
        exact ⟨noPrime, fun _ => stops⟩

theorem demandArrowHead_eq_ok_iff {value : Unit} :
    demandArrowHead position rest = .ok value ↔ ∃ after, rest = '>' :: after := by
  cases rest with
  | nil =>
      simp [demandArrowHead]
  | cons character rest =>
      by_cases isHead : character = '>' <;> simp [demandArrowHead, isHead]

section NameParts

variable {word primes : List Char}

/-- A run of characters ends where the next one does not belong to it. -/
theorem takeWhile_dropWhile_append
    {belongs : Char → Bool}
    (all : ∀ character ∈ word, belongs character = true)
    (ends : ∀ next ∈ rest.head?, belongs next = false) :
    (word ++ rest).takeWhile belongs = word ∧ (word ++ rest).dropWhile belongs = rest := by
  rw [List.takeWhile_append_of_pos all, List.dropWhile_append_of_pos all]
  cases rest with
  | nil =>
      simp
  | cons next rest =>
      simp [ends next rfl]

/-- A name reaches as far as what continues it, and the primes behind that. -/
theorem nameLength_word_primes
    (continuing : ∀ character ∈ word, style.continues character = true)
    (arePrimes : ∀ character ∈ primes, isPrime character = true)
    (ends :
      ∀ next ∈ rest.head?,
        isPrime next = false ∧ (primes = [] → style.continues next = false)) :
    nameLength style (word ++ (primes ++ rest)) = (word ++ primes).length := by
  have wordEnds : ∀ next ∈ (primes ++ rest).head?, style.continues next = false := by
    cases primes with
    | nil =>
        exact fun next isNext => (ends next isNext).2 rfl
    | cons prime primes =>
        have isPrime := arePrimes prime (by simp)
        simpa using continues_eq_false_of_isPrime isPrime
  obtain ⟨takesWord, dropsWord⟩ := takeWhile_dropWhile_append continuing wordEnds
  obtain ⟨takesPrimes, _⟩ :=
    takeWhile_dropWhile_append arePrimes fun next isNext => (ends next isNext).1
  rw [nameLength, takesWord, dropsWord, takesPrimes, List.length_append]

/-- Every text starts with what continues a name and primes, and goes on with something else. -/
theorem exists_word_primes (style : NameStyle) (text : List Char) :
    ∃ word primes rest,
      text = word ++ (primes ++ rest) ∧
        (∀ character ∈ word, style.continues character = true) ∧
        (∀ character ∈ primes, isPrime character = true) ∧
        ∀ next ∈ rest.head?,
          isPrime next = false ∧ (primes = [] → style.continues next = false) := by
  refine ⟨text.takeWhile style.continues, (text.dropWhile style.continues).takeWhile isPrime,
    (text.dropWhile style.continues).dropWhile isPrime, ?_, ?_, ?_, ?_⟩
  · rw [List.takeWhile_append_dropWhile, List.takeWhile_append_dropWhile]
  · exact fun character member => List.mem_takeWhile_imp member
  · exact fun character member => List.mem_takeWhile_imp member
  · intro next isNext
    have notPrime := List.head?_dropWhile_not isPrime (text.dropWhile style.continues)
    have notContinuing := List.head?_dropWhile_not style.continues text
    rw [Option.mem_def] at isNext
    refine ⟨by simpa [isNext] using notPrime, fun noPrimes => ?_⟩
    have whole := (text.dropWhile style.continues).takeWhile_append_dropWhile (p := isPrime)
    rw [noPrimes, List.nil_append] at whole
    rw [whole] at isNext
    simpa [isNext] using notContinuing

end NameParts

/-- The token in front of a text is one that starts it. -/
theorem front_eq_ok_iff :
    front style position character rest = .ok (token, further) ↔
      ∃ more after,
        rest = more ++ after ∧ further = more.length ∧
          Starts style (character :: more) after token := by
  constructor
  · intro found
    unfold front at found
    split at found
    · next token single =>
        cases found
        exact ⟨[], rest, rfl, rfl, .symbol single⟩
    next notSingle =>
    split at found
    · next isMinus =>
        subst isMinus
        simp only [Outcome.bind_eq_ok_iff, Outcome.pure_eq_ok_iff, demandArrowHead_eq_ok_iff]
          at found
        obtain ⟨_, ⟨after, rfl⟩, same⟩ := found
        cases same
        exact ⟨['>'], after, rfl, rfl, .conditional⟩
    split at found
    · next isLess =>
        subst isLess
        split at found
        · next rest =>
            simp only [Outcome.bind_eq_ok_iff, Outcome.pure_eq_ok_iff, demandArrowHead_eq_ok_iff]
              at found
            obtain ⟨_, ⟨after, rfl⟩, same⟩ := found
            cases same
            exact ⟨['-', '>'], after, rfl, rfl, .biconditional⟩
        · next after =>
            cases found
            exact ⟨['='], after, rfl, rfl, .subset⟩
        · next noMinus noEquals =>
            cases found
            refine ⟨[], rest, rfl, rfl, .properSubset fun next isNext => ?_⟩
            obtain ⟨after, rfl⟩ := List.head?_eq_some_iff.mp isNext
            exact ⟨fun same => noMinus after (same ▸ rfl), fun same => noEquals after (same ▸ rfl)⟩
    split at found
    · next letter =>
        cases found
        obtain ⟨word, primes, after, rfl, continuing, arePrimes, ends⟩ :=
          exists_word_primes style rest
        have length := nameLength_word_primes continuing arePrimes ends
        rw [length, ← List.append_assoc, List.take_left]
        exact ⟨word ++ primes, after, rfl, rfl,
          .identifier letter notSingle continuing arePrimes ends⟩
    · cases found
  · intro starts
    obtain ⟨more, after, rfl, rfl, starts⟩ := starts
    cases starts with
    | symbol found =>
        simp [front, found]
    | conditional | biconditional | subset =>
        rfl
    | properSubset ends =>
        cases after with
        | nil =>
            rfl
        | cons next after =>
            obtain ⟨noMinus, noEquals⟩ := ends next rfl
            simp [front, ofCharacter?, noMinus, noEquals]
    | identifier letter notSingle continuing arePrimes ends =>
        have length := nameLength_word_primes continuing arePrimes ends
        rw [← List.append_assoc] at length
        refine front_eq_ok_identifier_iff.mpr ⟨letter, notSingle, length.symm, ?_⟩
        rw [List.take_left]

end TypedLambda.Token
