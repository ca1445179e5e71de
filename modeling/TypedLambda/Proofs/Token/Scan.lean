import Mathlib.Data.List.TakeWhile
import TypedLambda.Proofs.Outcome
import TypedLambda.Token.Scan

namespace TypedLambda.Token

/-!
# Scanning tokens one by one

Where a token starts does not matter for which token it is, so scanning is
described without positions: a text scans as a list of tokens. A name is what
scans as a single identifier, and in front of a character that does not
continue it a name scans as that identifier.
-/

/-- A text consists of the given tokens, wherever it starts. -/
def Scans (style : NameStyle) (text : List Char) (tokens : List Token) : Prop :=
  ∀ position, ∃ result,
    scanFrom style position 0 text = .ok result ∧
      result.lexemes.map Lexeme.token = tokens

/-- A name consists of a single identifier, which is the name itself. -/
def IsName (style : NameStyle) (name : String) : Prop :=
  ∃ result,
    scan style name = .ok result ∧
      result.lexemes.map Lexeme.token = [.identifier name]

instance (style : NameStyle) (name : String) : Decidable (IsName style name) :=
  match outcome : scan style name with
  | .ok result =>
      decidable_of_iff (result.lexemes.map Lexeme.token = [.identifier name])
        ⟨fun single => ⟨result, outcome, single⟩, fun ⟨_, scanned, single⟩ =>
          Except.ok.inj (outcome.symm.trans scanned) ▸ single⟩
  | .error _ =>
      .isFalse fun ⟨_, scanned, _⟩ => nomatch outcome.symm.trans scanned

/-- No character that could belong to an identifier comes next. -/
def Stops (style : NameStyle) (text : List Char) : Prop :=
  ∀ character ∈ text.head?,
    style.continues character = false ∧ isPrime character = false

/-- The signs that a token can start with, apart from λ and ι, and the prime. -/
def signs : List Char :=
  ['\\', '∀', '∃', '.', ',', '(', ')', '[', ']', '¬', '~', '∧', '&', '∨', '|', '→', '↔', '=',
    '⊆', '⊂', '-', '<', '\x27']

section Letters

variable {character : Char}

/-- A letter is none of the signs. -/
theorem ne_sign_of_isLetter
    {sign : Char}
    (letter : Text.isLetter character = true)
    (isSign : sign ∈ signs) :
    character ≠ sign := by
  rintro rfl
  exact Text.notMem_of_isLetter letter (by decide +kernel) isSign

theorem isSeparator_eq_false_of_isLetter
    (letter : Text.isLetter character = true) :
    isSeparator character = false := by
  rw [← Bool.not_eq_true]
  intro separates
  have blank : Text.isBlank character = true := by
    simp only [isSeparator, Bool.or_eq_true, beq_iff_eq] at separates
    rcases separates with ((rfl | rfl) | rfl) | rfl <;> rfl
  simp [Text.isBlank_eq_false_of_isLetter letter] at blank

theorem isPlainDigit_eq_false_of_isLetter
    (letter : Text.isLetter character = true) :
    Text.isPlainDigit character = false := by
  rw [← Bool.not_eq_true]
  intro digit
  simp only [Text.isPlainDigit, Bool.and_eq_true, decide_eq_true_eq] at digit
  have least : 48 ≤ character.toNat := digit.1
  have greatest : character.toNat ≤ 57 := digit.2
  have below : character.toNat < 0x80 := by omega
  simp only [Text.isLetter, below, ↓reduceIte, Text.isPlainLetter, Bool.or_eq_true,
    Bool.and_eq_true, decide_eq_true_eq] at letter
  rcases letter with small | capital
  · have bound : 97 ≤ character.toNat := small.1
    omega
  · have bound : 65 ≤ character.toNat := capital.1
    omega

theorem isPrime_eq_false_of_isLetter
    (letter : Text.isLetter character = true) :
    isPrime character = false := by
  rw [isPrime, beq_eq_false_iff_ne]
  exact ne_sign_of_isLetter letter (by simp [signs])

/-- A prime is not among the characters that continue a name. -/
theorem continues_eq_false_of_isPrime
    {style : NameStyle}
    (prime : isPrime character = true) :
    style.continues character = false := by
  obtain rfl : character = '\x27' := by simpa [isPrime] using prime
  cases style <;> rfl

/-- Of all characters that are tokens by themselves only λ and ι are letters. -/
theorem ofCharacter?_eq_none_of_isLetter
    (letter : Text.isLetter character = true)
    (notLambda : character ≠ 'λ')
    (notIota : character ≠ 'ι') :
    ofCharacter? character = none := by
  unfold ofCharacter?
  split
  all_goals first
    | rfl
    | exact absurd rfl notLambda
    | exact absurd rfl notIota
    | exact absurd rfl (ne_sign_of_isLetter letter (by simp [signs]))

/-- A letter that continues a name could also begin one. -/
theorem ofCharacter?_eq_none_of_continues
    {style : NameStyle}
    (letter : Text.isLetter character = true)
    (continuing : style.continues character = true) :
    ofCharacter? character = none := by
  cases style with
  | singleLetter =>
      have digit : Text.isPlainDigit character = true := continuing
      rw [isPlainDigit_eq_false_of_isLetter letter] at digit
      cases digit
  | multiLetter =>
      simp only [NameStyle.continues, Bool.or_eq_true, Bool.and_eq_true,
        bne_iff_ne, ne_eq, beq_iff_eq] at continuing
      rcases continuing with ⟨⟨_, notLambda⟩, notIota⟩ | rfl
      · exact ofCharacter?_eq_none_of_isLetter letter notLambda notIota
      · rfl

end Letters

section NameLength

variable {style : NameStyle} {rest tail : List Char}

theorem nameLength_le_length : nameLength style rest ≤ rest.length := by
  have parts := congrArg List.length (rest.takeWhile_append_dropWhile (p := style.continues))
  have primes := (List.takeWhile_sublist (l := rest.dropWhile style.continues) isPrime).length_le
  rw [List.length_append] at parts
  rw [nameLength]
  omega

theorem nameLength_cons (character : Char) :
    nameLength style (character :: rest) =
      if style.continues character then
        nameLength style rest + 1
      else
        ((character :: rest).takeWhile isPrime).length := by
  by_cases continuing : style.continues character = true
  · simp only [nameLength, List.takeWhile_cons, List.dropWhile_cons, continuing,
      ↓reduceIte, List.length_cons]
    omega
  · simp [nameLength, List.takeWhile_cons, continuing]

/-- What belongs to a name does so in front of a character that stops it. -/
theorem nameLength_append
    (whole : nameLength style rest = rest.length)
    (stops : Stops style tail) :
    nameLength style (rest ++ tail) = rest.length := by
  induction rest with
  | nil =>
      cases tail with
      | nil =>
          rfl
      | cons character tail =>
          obtain ⟨ends, noPrime⟩ := stops character rfl
          simp [nameLength_cons, ends, noPrime]
  | cons character rest inductionHypothesis =>
      rw [nameLength_cons] at whole
      rw [List.cons_append, nameLength_cons]
      by_cases continuing : style.continues character = true
      · rw [if_pos continuing, List.length_cons, Nat.add_right_cancel_iff] at whole
        rw [if_pos continuing, inductionHypothesis whole, List.length_cons]
      · rw [if_neg continuing] at whole
        rw [if_neg continuing, ← List.cons_append, List.takeWhile_append,
          if_pos whole]
        have ends : tail.takeWhile isPrime = [] := by
          cases tail with
          | nil =>
              rfl
          | cons next tail =>
              simp [(stops next rfl).2]
        rw [ends, List.append_nil]

/-- Primes may be added to what belongs to a name. -/
theorem nameLength_append_primes
    (whole : nameLength style rest = rest.length)
    (count : Nat) :
    nameLength style (rest ++ List.replicate count '\x27') = rest.length + count := by
  have ends : style.continues '\x27' = false := continues_eq_false_of_isPrime rfl
  have isPrimes :
      (List.replicate count '\x27').takeWhile isPrime = List.replicate count '\x27' := by
    simp [isPrime]
  induction rest with
  | nil =>
      cases count with
      | zero =>
          rfl
      | succ count =>
          rw [List.nil_append, List.replicate_succ, nameLength_cons, ends,
            ← List.replicate_succ, isPrimes]
          simp
  | cons character rest inductionHypothesis =>
      rw [nameLength_cons] at whole
      rw [List.cons_append, nameLength_cons]
      by_cases continuing : style.continues character = true
      · rw [if_pos continuing, List.length_cons, Nat.add_right_cancel_iff] at whole
        rw [if_pos continuing, inductionHypothesis whole, List.length_cons]
        omega
      · rw [if_neg continuing] at whole
        rw [if_neg continuing, ← List.cons_append, List.takeWhile_append, if_pos whole, isPrimes,
          List.length_append, List.length_replicate]

/-- What belongs to a name belongs to it alone as well. -/
theorem nameLength_take :
    nameLength style (rest.take (nameLength style rest)) =
      (rest.take (nameLength style rest)).length := by
  induction rest with
  | nil =>
      rfl
  | cons character rest inductionHypothesis =>
      rw [nameLength_cons]
      by_cases continuing : style.continues character = true
      · rw [if_pos continuing, List.take_succ_cons, nameLength_cons,
          if_pos continuing, inductionHypothesis, List.length_cons]
      · rw [if_neg continuing,
          ← List.prefix_iff_eq_take.mp (List.takeWhile_prefix isPrime)]
        by_cases prime : isPrime character = true
        · have primes :
              (character :: rest).takeWhile isPrime =
                character :: rest.takeWhile isPrime := by
            simp [prime]
          rw [primes, nameLength_cons, if_neg continuing, ← primes,
            List.takeWhile_takeWhile]
          simp
        · simp [prime, nameLength]

end NameLength

section Scanning

variable {style : NameStyle} {rest : List Char} {tokens : List Token}

attribute [local simp] scanFrom

theorem Scans.nil : Scans style [] [] := fun position =>
  ⟨⟨[], position⟩, by simp, rfl⟩

/-- A separator is no part of any token. -/
theorem Scans.separator
    {character : Char}
    (separates : isSeparator character = true)
    (scans : Scans style rest tokens) :
    Scans style (character :: rest) tokens := by
  intro position
  obtain ⟨result, scanned, same⟩ := scans (position + 1)
  refine ⟨result, ?_, same⟩
  rw [scanFrom, if_pos separates, scanned]

/-- Characters that belong to a token are passed over. -/
theorem scanFrom_passed
    (position : Nat)
    (more : List Char) :
    scanFrom style position more.length (more ++ rest) =
      scanFrom style (position + more.length) 0 rest := by
  induction more generalizing position with
  | nil =>
      rfl
  | cons character more inductionHypothesis =>
      rw [List.length_cons, List.cons_append, scanFrom, inductionHypothesis]
      congr 1
      omega

/-- A token in front of a text that scans. -/
theorem Scans.cons
    {character : Char}
    {token : Token}
    (more : List Char)
    (begins : isSeparator character = false)
    (found :
      ∀ position,
        front style position character (more ++ rest) = .ok (token, more.length))
    (scans : Scans style rest tokens) :
    Scans style (character :: more ++ rest) (token :: tokens) := by
  intro position
  obtain ⟨result, scanned, same⟩ := scans (position + 1 + more.length)
  refine ⟨⟨⟨token, position⟩ :: result.lexemes, result.finish⟩, ?_, by simp [same]⟩
  simp only [List.cons_append, scanFrom, begins, Bool.false_eq_true, ↓reduceIte,
    found, Outcome.ok_bind, scanFrom_passed, scanned]
  rfl

/-- A character that is a token by itself is no separator. -/
theorem isSeparator_eq_false_of_ofCharacter?
    {character : Char}
    {token : Token}
    (found : ofCharacter? character = some token) :
    isSeparator character = false := by
  rw [← Bool.not_eq_true]
  intro separates
  simp only [isSeparator, Bool.or_eq_true, beq_iff_eq] at separates
  rcases separates with ((rfl | rfl) | rfl) | rfl <;> cases found

/-- A token of a single character. -/
theorem Scans.symbol
    {character : Char}
    {token : Token}
    (found : ofCharacter? character = some token)
    (scans : Scans style rest tokens) :
    Scans style (character :: rest) (token :: tokens) := by
  refine Scans.cons [] (isSeparator_eq_false_of_ofCharacter? found) (fun position => ?_) scans
  simp [front, found]

end Scanning

/-- No character is an identifier by itself. -/
theorem ofCharacter?_ne_identifier
    {character : Char}
    {name : String} :
    ofCharacter? character ≠ some (.identifier name) := by
  intro found
  unfold ofCharacter? at found
  split at found <;> cases found

/-- A token that is an identifier starts with a letter and reaches as far as it can. -/
theorem front_eq_ok_identifier_iff
    {style : NameStyle}
    {position further : Nat}
    {character : Char}
    {rest : List Char}
    {name : String} :
    front style position character rest = .ok (.identifier name, further) ↔
      Text.isLetter character = true ∧
        ofCharacter? character = none ∧
        further = nameLength style rest ∧
        name = String.ofList (character :: rest.take further) := by
  constructor
  · intro found
    unfold front at found
    split at found
    · next token single =>
        simp only [Except.ok.injEq, Prod.mk.injEq] at found
        exact (ofCharacter?_ne_identifier (found.1 ▸ single)).elim
    · next notSingle =>
        split at found
        · simp at found
        · split at found
          · split at found <;> simp at found
          · split at found
            · next letter =>
                simp only [Except.ok.injEq, Prod.mk.injEq,
                  Token.identifier.injEq] at found
                obtain ⟨rfl, rfl⟩ := found
                exact ⟨letter, notSingle, rfl, rfl⟩
            · cases found
  · rintro ⟨letter, notSingle, rfl, rfl⟩
    have notMinus : character ≠ '-' := ne_sign_of_isLetter letter (by simp [signs])
    have notLess : character ≠ '<' := ne_sign_of_isLetter letter (by simp [signs])
    simp [front, notSingle, notMinus, notLess, letter]

/-- A scan that starts with a token goes on behind it. -/
theorem scanFrom_cons_cases
    {style : NameStyle}
    {position : Nat}
    {character : Char}
    {rest : List Char}
    {result : Scan}
    (begins : isSeparator character = false)
    (scanned : scanFrom style position 0 (character :: rest) = .ok result) :
    ∃ token further remaining,
      front style position character rest = .ok (token, further) ∧
        scanFrom style (position + 1) further rest = .ok remaining ∧
        result = ⟨⟨token, position⟩ :: remaining.lexemes, remaining.finish⟩ := by
  simp only [scanFrom, begins, Bool.false_eq_true, ↓reduceIte,
    Outcome.bind_eq_ok_iff, Outcome.pure_eq_ok_iff] at scanned
  obtain ⟨⟨token, further⟩, found, remaining, scannedRest, rfl⟩ := scanned
  exact ⟨token, further, remaining, found, scannedRest, rfl⟩

/-- Every lexeme of a scan stands in front of what remains of the text. -/
theorem exists_front_of_mem_lexemes
    {style : NameStyle}
    {position passed : Nat}
    {text : List Char}
    {result : Scan}
    (scanned : scanFrom style position passed text = .ok result)
    {lexeme : Lexeme}
    (member : lexeme ∈ result.lexemes) :
    ∃ character rest further,
      character :: rest <:+ text ∧
        front style lexeme.position character rest = .ok (lexeme.token, further) := by
  fun_induction scanFrom style position passed text generalizing result with
  | case1 position passed =>
      cases scanned
      cases member
  | case2 position passed character rest inductionHypothesis
  | case3 position character rest separates inductionHypothesis =>
      obtain ⟨first, more, further, part, found⟩ :=
        inductionHypothesis scanned member
      exact ⟨first, more, further, part.trans (List.suffix_cons _ _), found⟩
  | case4 position character rest noSeparator inductionHypothesis =>
      simp only [Outcome.bind_eq_ok_iff, Outcome.pure_eq_ok_iff] at scanned
      obtain ⟨⟨token, further⟩, found, remaining, scannedRest, rfl⟩ := scanned
      rcases List.mem_cons.mp member with rfl | later
      · exact ⟨character, rest, further, List.suffix_rfl, found⟩
      · obtain ⟨first, more, reach, part, foundLater⟩ :=
          inductionHypothesis further scannedRest later
        exact ⟨first, more, reach, part.trans (List.suffix_cons _ _), foundLater⟩

section Names

variable {style : NameStyle} {name : String}

/-- A name starts with a letter that is no token by itself, and all the rest belongs to it. -/
theorem isName_iff :
    IsName style name ↔
      ∃ first rest,
        name.toList = first :: rest ∧
          Text.isLetter first = true ∧
          ofCharacter? first = none ∧
          nameLength style rest = rest.length := by
  constructor
  · rintro ⟨result, scanned, single⟩
    rw [scan] at scanned
    cases spelled : name.toList with
    | nil =>
        rw [spelled] at scanned
        cases scanned
        cases single
    | cons first rest =>
        rw [spelled] at scanned
        cases separates : isSeparator first with
        | true =>
            -- Then the identifier would be longer than what is left of the text.
            simp only [scanFrom, separates, ↓reduceIte] at scanned
            obtain ⟨lexeme, isOnly, isName⟩ :
                ∃ lexeme, lexeme ∈ result.lexemes ∧
                  lexeme.token = .identifier name := by
              simpa using List.mem_map.mp (single ▸ List.mem_singleton_self _)
            obtain ⟨character, more, further, part, found⟩ :=
              exists_front_of_mem_lexemes scanned isOnly
            rw [isName, front_eq_ok_identifier_iff] at found
            obtain ⟨_, _, _, same⟩ := found
            have lengths := congrArg (fun name => name.toList.length) same
            have shorter := part.length_le
            simp only [spelled, String.toList_ofList, List.length_cons,
              List.length_take] at lengths shorter
            omega
        | false =>
            obtain ⟨token, further, remaining, found, _, rfl⟩ :=
              scanFrom_cons_cases separates scanned
            simp only [List.map_cons, List.cons.injEq] at single
            obtain ⟨rfl, _⟩ := single
            obtain ⟨letter, notSingle, rfl, same⟩ := front_eq_ok_identifier_iff.mp found
            refine ⟨first, rest, rfl, letter, notSingle, ?_⟩
            have lengths := congrArg (fun name => name.toList.length) same
            have bound : nameLength style rest ≤ rest.length := nameLength_le_length
            simp only [spelled, String.toList_ofList, List.length_cons,
              List.length_take] at lengths
            omega
  · rintro ⟨first, rest, spelled, letter, notSingle, whole⟩
    have scans : Scans style (first :: rest ++ []) [.identifier name] := by
      refine .cons rest (isSeparator_eq_false_of_isLetter letter) ?_ .nil
      intro position
      rw [List.append_nil]
      refine front_eq_ok_identifier_iff.mpr ⟨letter, notSingle, whole.symm, ?_⟩
      rw [List.take_length, ← spelled, String.ofList_toList]
    rw [List.append_nil, ← spelled] at scans
    exact scans 0

/-- A name scans as itself in front of a character that stops it. -/
theorem Scans.identifier
    {rest : List Char}
    {tokens : List Token}
    (isName : IsName style name)
    (stops : Stops style rest)
    (scans : Scans style rest tokens) :
    Scans style (name.toList ++ rest) (.identifier name :: tokens) := by
  obtain ⟨first, more, spelled, letter, notSingle, whole⟩ := isName_iff.mp isName
  rw [spelled]
  refine .cons more (isSeparator_eq_false_of_isLetter letter) ?_ scans
  intro position
  refine front_eq_ok_identifier_iff.mpr
    ⟨letter, notSingle, (nameLength_append whole stops).symm, ?_⟩
  rw [List.take_left, ← spelled, String.ofList_toList]

/-- Every identifier in a scan is a name. -/
theorem isName_of_mem_lexemes
    {position passed : Nat}
    {text : List Char}
    {result : Scan}
    (scanned : scanFrom style position passed text = .ok result)
    {lexeme : Lexeme}
    (member : lexeme ∈ result.lexemes)
    (isIdentifier : lexeme.token = .identifier name) :
    IsName style name := by
  obtain ⟨character, rest, further, _, found⟩ :=
    exists_front_of_mem_lexemes scanned member
  rw [isIdentifier, front_eq_ok_identifier_iff] at found
  obtain ⟨letter, notSingle, rfl, rfl⟩ := found
  refine isName_iff.mpr ⟨character, _, String.toList_ofList, letter, notSingle, ?_⟩
  exact nameLength_take

end Names

end TypedLambda.Token
