import TypedLambda.Convention.Reader
import TypedLambda.Proofs.Ty.RoundTrip

namespace TypedLambda

/-!
# Printing and reading conventions

A convention can be written down if its interval is one of letters and its
type can be read. Conventions of that kind are read back from their printed
form, in the same order, and all conventions that are read are of that kind.
Of the letters in an interval nothing is used but that they are neither blanks
nor one of the signs that divide entries and their parts.
-/

namespace Text

/-- A letter is neither a blank nor a sign that divides entries or their parts. -/
theorem isLetter_ne
    {character : Char}
    (letter : isLetter character = true) :
    isBlank character = false ∧ character ∉ ['-', ':', ';', '#'] :=
  ⟨isBlank_eq_false_of_isLetter letter, notMem_of_isLetter letter (by decide +kernel)⟩

/-- Neither a blank nor a semicolon. -/
def IsSolid (character : Char) : Prop :=
  isBlank character = false ∧ character ≠ ';'

instance (character : Char) : Decidable (IsSolid character) :=
  inferInstanceAs (Decidable (_ ∧ _))

theorem isSolid_of_isLetter
    {character : Char}
    (letter : isLetter character = true) :
    IsSolid character := by
  obtain ⟨noBlank, noSign⟩ := isLetter_ne letter
  simp only [List.mem_cons, not_or] at noSign
  exact ⟨noBlank, noSign.2.2.1⟩

/-- A text that does not start with a blank begins where it is trimmed to begin. -/
theorem trimStart_cons
    {character : Char}
    (noBlank : isBlank character = false)
    (rest : List Char) :
    trimStart (character :: rest) = character :: rest := by
  simp [trimStart, noBlank]

/-- A blank at the beginning of a text is trimmed. -/
theorem trim_blank_cons
    {character : Char}
    (blank : isBlank character = true)
    (rest : List Char) :
    trim (character :: rest) = trim rest := by
  simp [trim, trimStart, blank]

/-- A text that ends with something solid ends where it is trimmed to end. -/
theorem trimEnd_append
    {last : List Char}
    (nonempty : last ≠ [])
    (solid : ∀ character ∈ last, IsSolid character)
    (before : List Char) :
    trimEnd (before ++ last) = before ++ last := by
  cases reversed : last.reverse with
  | nil =>
      exact (nonempty (List.reverse_eq_nil_iff.mp reversed)).elim
  | cons final earlier =>
      have inLast : final ∈ last :=
        List.mem_reverse.mp (by simp [reversed])
      have noBlank : isBlank final = false := (solid final inLast).1
      have kept :
          (before ++ last).reverse.dropWhile isBlank = (before ++ last).reverse := by
        simp [reversed, noBlank]
      rw [trimEnd, kept, List.reverse_reverse]

end Text

namespace Ty

/-- Parentheses are solid, so a factor is if its type is. -/
theorem solid_factorChars
    {factor : Ty}
    (solid : ∀ character ∈ factor.chars .logical, Text.IsSolid character) :
    ∀ character ∈ factor.factorChars, Text.IsSolid character := by
  cases factor with
  | prod factors =>
      intro character member
      simp only [factorChars, enclose, List.cons_append, List.mem_cons, List.mem_append,
        List.not_mem_nil, or_false] at member
      rcases member with rfl | inside | rfl
      · decide
      · exact solid character inside
      · decide
  | _ =>
      exact solid

/-- The text of a factor is not empty if that of its type is not. -/
theorem factorChars_ne_nil
    {factor : Ty}
    (nonempty : factor.chars .logical ≠ []) :
    factor.factorChars ≠ [] := by
  cases factor with
  | prod _ =>
      simp [factorChars, enclose]
  | _ =>
      exact nonempty

/-- There is something solid to every type, and nothing else. -/
theorem Readable.solid_chars
    {ty : Ty}
    (readable : ty.Readable) :
    ty.chars .logical ≠ [] ∧ ∀ character ∈ ty.chars .logical, Text.IsSolid character := by
  have solidSmall
      {letter : Char}
      (small : Text.isSmallLetter letter = true) :
      Text.IsSolid letter :=
    Text.isSolid_of_isLetter (Text.isLetter_of_isSmallLetter small)
  induction readable with
  | atom small =>
      simpa [chars] using solidSmall small
  | var small =>
      have quote : Text.IsSolid '\x27' := by
        decide
      simpa [chars, quote] using solidSmall small
  | fn _ _ domainHypothesis rangeHypothesis =>
      refine ⟨by simp [chars], fun character member => ?_⟩
      simp only [chars, List.cons_append, List.mem_cons, List.mem_append, List.append_assoc,
        List.not_mem_nil, or_false] at member
      rcases member with rfl | inDomain | rfl | inRange | rfl
      · decide
      · exact domainHypothesis.2 character inDomain
      · decide
      · exact rangeHypothesis.2 character inRange
      · decide
  | @prod factors several _ inductionHypothesis =>
      cases factors with
      | nil =>
          simp at several
      | cons factor rest =>
          obtain ⟨⟨nonempty, solidFirst⟩, others⟩ := List.forall_mem_cons.mp inductionHypothesis
          have text :
              (Ty.prod (factor :: rest)).chars .logical =
                factor.factorChars ++ signedFactors rest := by
            simp [chars, factorChars, furtherFactors_logical]
          refine ⟨by simp [text, factorChars_ne_nil nonempty], fun character member => ?_⟩
          simp only [text, signedFactors, List.mem_append, List.mem_flatMap,
            List.mem_cons] at member
          rcases member with inFirst | ⟨other, inRest, rfl | inOther⟩
          · exact solid_factorChars solidFirst character inFirst
          · decide
          · exact solid_factorChars (others other inRest).2 character inOther

end Ty

namespace Convention

/-- The convention can be written down. -/
structure Readable (convention : Convention) : Prop where
  first : Text.isLetter convention.first = true
  last : Text.isLetter convention.last = true
  ordered : convention.first ≤ convention.last
  ty : ∃ text, Ty.read text = .ok convention.ty

/-- The first separating character is where a text is cut. -/
theorem cut?_append_cons
    {separates : Char → Bool}
    {before : List Char}
    {separator : Char}
    (inside : ∀ character ∈ before, separates character = false)
    (isSeparator : separates separator = true)
    (rest : List Char) :
    cut? separates (before ++ separator :: rest) = some (before, rest) := by
  induction before with
  | nil =>
      simp [cut?, isSeparator]
  | cons character before inductionHypothesis =>
      obtain ⟨notHere, further⟩ := List.forall_mem_cons.mp inside
      simp [cut?, notHere, inductionHypothesis further]

/-- The words for the kinds are solid. -/
theorem solid_word (kind : IdentifierKind) :
    ∀ character ∈ kind.word, Text.IsSolid character := by
  have allSolid : kind.word.all (fun character => decide (Text.IsSolid character)) = true := by
    cases kind <;> rfl
  simpa only [decide_eq_true_eq] using List.all_eq_true.mp allSolid

@[simp] theorem ofWord?_word (kind : IdentifierKind) :
    IdentifierKind.ofWord? kind.word = some kind := by
  cases kind <;> rfl

section Readable

variable {convention : Convention}

/-- The interval of a convention is read back. -/
theorem Readable.readInterval?_intervalChars (readable : convention.Readable) :
    readInterval? convention.intervalChars = some (convention.first, convention.last) := by
  have solidFirst := (Text.isSolid_of_isLetter readable.first).1
  have solidLast := (Text.isSolid_of_isLetter readable.last).1
  have solidDash : Text.isBlank '-' = false := rfl
  by_cases single : convention.first = convention.last
  · simp [intervalChars, readInterval?, single, solidLast, readable.last]
  · simp [intervalChars, readInterval?, single, solidFirst, solidLast, solidDash,
      readable.first, readable.last, readable.ordered]

/-- The interval is solid, and no colon stands in it. -/
theorem Readable.solid_intervalChars (readable : convention.Readable) :
    ∀ character ∈ convention.intervalChars, Text.IsSolid character ∧ character ≠ ':' := by
  have solid
      {letter : Char}
      (isLetter : Text.isLetter letter = true) :
      Text.IsSolid letter ∧ letter ≠ ':' := by
    have noSign := (Text.isLetter_ne isLetter).2
    simp only [List.mem_cons, not_or] at noSign
    exact ⟨Text.isSolid_of_isLetter isLetter, noSign.2.1⟩
  have solidDash : Text.IsSolid '-' ∧ '-' ≠ ':' := by
    decide
  by_cases single : convention.first = convention.last
  · simpa [intervalChars, single] using solid readable.last
  · simpa [intervalChars, single, solidDash] using ⟨solid readable.first, solid readable.last⟩

/-- A printed convention starts with its first letter. -/
theorem chars_eq_cons (convention : Convention) :
    ∃ rest, convention.chars = convention.first :: rest := by
  by_cases single : convention.first = convention.last
  · simp [chars, intervalChars, single]
  · simp [chars, intervalChars, single]

/-- There are no blanks around a printed convention. -/
theorem Readable.trim_chars (readable : convention.Readable) :
    Text.trim convention.chars = convention.chars := by
  obtain ⟨_, result⟩ := readable.ty
  obtain ⟨nonempty, solidType⟩ := (Ty.readable_of_read result).solid_chars
  obtain ⟨rest, shape⟩ := convention.chars_eq_cons
  have begun : Text.trimStart convention.chars = convention.chars := by
    simp [shape, Text.trimStart_cons (Text.isLetter_ne readable.first).1]
  have ended : Text.trimEnd convention.chars = convention.chars := by
    simpa [chars] using
      Text.trimEnd_append nonempty solidType
        (convention.intervalChars ++ [':', ' '] ++ convention.kind.word ++ [' '])
  rw [Text.trim, begun, ended]

/-- A convention is read back from its printed form. -/
theorem Readable.read_chars (readable : convention.Readable) :
    read convention.chars = .ok convention := by
  have noColon :
      ∀ character ∈ convention.intervalChars, (character == ':') = false := by
    intro character member
    simp [(readable.solid_intervalChars character member).2]
  have atColon :
      cut? (· == ':') convention.chars =
        some (convention.intervalChars,
          ' ' :: (convention.kind.word ++ ' ' :: convention.ty.chars .logical)) := by
    simpa [chars] using cut?_append_cons noColon rfl _
  have trimmed :
      Text.trimStart (' ' :: (convention.kind.word ++ ' ' :: convention.ty.chars .logical)) =
        convention.kind.word ++ ' ' :: convention.ty.chars .logical := by
    cases convention.kind <;> rfl
  have atBlank :
      cut? Text.isBlank (convention.kind.word ++ ' ' :: convention.ty.chars .logical) =
        some (convention.kind.word, convention.ty.chars .logical) :=
    cut?_append_cons (fun character member => (solid_word _ character member).1) rfl _
  obtain ⟨text, result⟩ := readable.ty
  have typeRead : Ty.read (String.ofList (convention.ty.chars .logical)) = .ok convention.ty :=
    (Ty.readable_of_read result).read_text .logical
  simp [read, atColon, readable.readInterval?_intervalChars, trimmed, atBlank, typeRead]

/-- An interval that is read is an ascending one of letters. -/
theorem ascending_of_readInterval?
    {text : List Char}
    {first last : Char}
    (interval : readInterval? text = some (first, last)) :
    Text.isLetter first = true ∧ Text.isLetter last = true ∧ first ≤ last := by
  unfold readInterval? at interval
  split at interval
  · next letter _ =>
      split at interval
      · next isLetter =>
          cases interval
          exact ⟨isLetter, isLetter, Nat.le_refl _⟩
      · cases interval
  · split at interval
    · next isInterval =>
        cases interval
        simp only [Bool.and_eq_true, decide_eq_true_eq] at isInterval
        exact ⟨isInterval.1.1, isInterval.1.2, isInterval.2⟩
    · cases interval
  · cases interval

/-- Every convention that is read can be written down. -/
theorem readable_of_read
    {entry : List Char}
    (result : read entry = .ok convention) :
    convention.Readable := by
  unfold read at result
  split at result
  · cases result
  split at result
  · cases result
  next first last interval =>
    simp only at result
    split at result
    · cases result
    split at result
    · next ty typeRead =>
        cases result
        obtain ⟨isFirst, isLast, ordered⟩ := ascending_of_readInterval? interval
        exact ⟨isFirst, isLast, ordered, _, typeRead⟩
    · cases result

end Readable

end Convention

namespace Conventions

/-- A text cut at a separator states what its two parts state. -/
theorem statements_append_cons
    {separator : Char}
    (isSeparator : separates separator = true)
    (before rest : List Char) :
    statements (before ++ separator :: rest) = statements before ++ statements rest := by
  simp [statements, List.splitOnP_append_cons _ _ isSeparator]

/-- A blank at the beginning of a text states nothing. -/
theorem statements_blank_cons
    {character : Char}
    (blank : Text.isBlank character = true)
    (rest : List Char) :
    statements (character :: rest) = statements rest := by
  simp only [statements, List.splitOnP_cons_eq_if_modifyHead]
  split
  · simp [Text.trim, Text.trimStart, Text.trimEnd, isStatement]
  · cases pieces : rest.splitOnP separates with
    | nil =>
        simp
    | cons piece pieces =>
        simp [Text.trim_blank_cons blank]

section Readable

variable {convention : Convention}

/-- No separator stands in a printed convention. -/
theorem separates_eq_false_of_mem_chars
    (readable : convention.Readable)
    {character : Char}
    (member : character ∈ convention.chars) :
    separates character = false := by
  have ofSolid
      {character : Char}
      (solid : Text.IsSolid character) :
      separates character = false := by
    have noLineEnd : character ≠ '\n' := by
      intro lineEnd
      simp [lineEnd, Text.IsSolid, Text.isBlank] at solid
    simp [separates, solid.2, noLineEnd]
  obtain ⟨_, result⟩ := readable.ty
  have solidType := (Ty.readable_of_read result).solid_chars.2
  simp only [Convention.chars, List.append_assoc, List.mem_append, List.mem_cons,
    List.not_mem_nil, or_false] at member
  rcases member with inInterval | (rfl | rfl) | inWord | rfl | inType
  · exact ofSolid (readable.solid_intervalChars character inInterval).1
  · rfl
  · rfl
  · exact ofSolid (Convention.solid_word _ character inWord)
  · rfl
  · exact ofSolid (solidType character inType)

/-- A printed convention is a whole entry. -/
theorem statements_chars (readable : convention.Readable) :
    statements convention.chars = [convention.chars] := by
  obtain ⟨rest, shape⟩ := convention.chars_eq_cons
  have noSign := (Text.isLetter_ne readable.first).2
  simp only [List.mem_cons, not_or] at noSign
  have states : isStatement convention.chars = true := by
    simp [shape, isStatement, noSign]
  have whole : convention.chars.splitOnP separates = [convention.chars] :=
    List.splitOnP_eq_singleton fun _ member =>
      separates_eq_false_of_mem_chars readable member
  simp [statements, whole, readable.trim_chars, states]

/-- Printed conventions are entries in their order. -/
theorem statements_intercalate
    {entries : List Convention}
    (readable : ∀ convention ∈ entries, convention.Readable) :
    statements ([';', ' '].intercalate (entries.map Convention.chars)) =
      entries.map Convention.chars := by
  induction entries with
  | nil =>
      simp [statements, Text.trim, Text.trimStart, Text.trimEnd, isStatement]
  | cons convention entries inductionHypothesis =>
      obtain ⟨first, others⟩ := List.forall_mem_cons.mp readable
      cases entries with
      | nil =>
          simpa using statements_chars first
      | cons next later =>
          have shape :
              [';', ' '].intercalate ((convention :: next :: later).map Convention.chars) =
                convention.chars ++
                  ';' :: ' ' :: [';', ' '].intercalate ((next :: later).map Convention.chars) := by
            simp [List.intercalate_cons_cons]
          rw [shape, statements_append_cons rfl, statements_chars first,
            statements_blank_cons rfl, inductionHypothesis others]
          rfl

/-- Printed conventions are read back one by one. -/
theorem mapM_read_chars
    {entries : List Convention}
    (readable : ∀ convention ∈ entries, convention.Readable) :
    (entries.map Convention.chars).mapM Convention.read = .ok entries := by
  induction entries with
  | nil =>
      rfl
  | cons convention entries inductionHypothesis =>
      obtain ⟨first, others⟩ := List.forall_mem_cons.mp readable
      simp [first.read_chars, inductionHypothesis others]

end Readable

/-- Conventions that can be written down are read back from their text. -/
theorem read_text
    {conventions : Conventions}
    (readable : ∀ convention ∈ conventions.entries, convention.Readable) :
    read conventions.text = .ok conventions := by
  simp [read, text, chars, statements_intercalate readable, mapM_read_chars readable]

/-- What is read from entries one by one can be written down. -/
theorem readable_of_mapM_read
    {texts : List (List Char)}
    {entries : List Convention}
    (result : texts.mapM Convention.read = .ok entries) :
    ∀ convention ∈ entries, convention.Readable := by
  induction texts generalizing entries with
  | nil =>
      cases result
      simp
  | cons text texts inductionHypothesis =>
      simp only [List.mapM_cons, Outcome.bind_eq_ok_iff, Outcome.pure_eq_ok_iff] at result
      obtain ⟨convention, first, others, further, rfl⟩ := result
      exact List.forall_mem_cons.mpr
        ⟨Convention.readable_of_read first, inductionHypothesis further⟩

/-- All conventions that are read can be written down. -/
theorem readable_of_read
    {text : String}
    {conventions : Conventions}
    (result : read text = .ok conventions) :
    ∀ convention ∈ conventions.entries, convention.Readable := by
  simp only [read, Outcome.bind_eq_ok_iff, Outcome.pure_eq_ok_iff] at result
  obtain ⟨entries, each, rfl⟩ := result
  exact readable_of_mapM_read each

/--
Conventions that have been read from any text are read back from their printed
form, and so are all others whose intervals are ascending intervals of letters
and whose types can be read.
-/
theorem read_text_readBack :
    (∀ (text : String) (conventions : Conventions),
        read text = .ok conventions → read conventions.text = .ok conventions) ∧
      ∀ conventions : Conventions,
        (∀ convention ∈ conventions.entries, convention.Readable) →
          read conventions.text = .ok conventions :=
  ⟨fun _ _ result => read_text (readable_of_read result), fun _ => read_text⟩

/-- Entities from x to z and relations between entities, the letter R alone. -/
def entitiesAndRelations : Conventions :=
  ⟨[⟨'x', 'z', .variable, .entity⟩,
    ⟨'R', 'R', .constant, .predicate (.prod [.entity, .entity])⟩]⟩

/-- Conventions are read back whether they have been read before or not. -/
theorem read_text_readBack_entitiesAndRelations :
    read " x - z:var e;\n# relations\nR: const <e*e t>" = .ok entitiesAndRelations ∧
      entitiesAndRelations.text = "x-z: var e; R: const <e×e,t>" ∧
      read entitiesAndRelations.text = .ok entitiesAndRelations ∧
      (∀ convention ∈ standard.entries, convention.Readable) ∧
      read standard.text = .ok standard := by
  obtain ⟨ofRead, ofReadable⟩ := read_text_readBack
  have result :
      read " x - z:var e;\n# relations\nR: const <e*e t>" = .ok entitiesAndRelations := by
    rfl
  have standardReadable : ∀ convention ∈ standard.entries, convention.Readable := by
    simp only [standard, List.forall_mem_cons]
    exact ⟨⟨rfl, rfl, by decide, "e", rfl⟩, ⟨rfl, rfl, by decide, "t", rfl⟩,
      ⟨rfl, rfl, by decide, "e", rfl⟩, ⟨rfl, rfl, by decide, "<e,t>", rfl⟩,
      ⟨rfl, rfl, by decide, "<e*e,t>", rfl⟩, ⟨rfl, rfl, by decide, "<et>", rfl⟩, by simp⟩
  exact ⟨result, rfl, ofRead _ _ result, standardReadable, ofReadable standard standardReadable⟩

end Conventions

end TypedLambda
