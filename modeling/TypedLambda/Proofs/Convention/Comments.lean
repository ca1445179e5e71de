import TypedLambda.Proofs.Convention.RoundTrip

namespace TypedLambda

/-!
# Comment lines

A text is cut at semicolons and line ends alike before the comments among its
entries are left out. So a line that starts with `#` is a comment as far as its
first semicolon, and what stands behind that is read as if it stood on a line
of its own. Such a line can be put anywhere between the lines of a text without
changing what the text states exactly if it is blank or a comment again behind
each of its semicolons.
-/

namespace Text

/-- The first character that is no blank is a number sign. -/
def IsComment (line : List Char) : Prop :=
  (trimStart line).head? = some '#'

/-- There is nothing but blanks, or else a comment. -/
def IsSilent (entry : List Char) : Prop :=
  trimStart entry = [] ∨ IsComment entry

/-- What follows the first semicolon of a line. -/
def behindSemicolon (line : List Char) : List Char :=
  (line.dropWhile (· != ';')).tail

/-- The place behind a text is the beginning of a line. -/
def EndsLine (text : List Char) : Prop :=
  text = [] ∨ ∃ before, text = before ++ ['\n']

/-- A boundary of a line of a text. -/
inductive LineBoundary : List Char → Type where
  /-- The beginning of a line, in front of what follows there. -/
  | inFront (earlier later : List Char) (begins : EndsLine earlier) :
      LineBoundary (earlier ++ later)
  /-- The end of a text whose last line has a line end. -/
  | atEnd (text : List Char) (ended : EndsLine text) : LineBoundary text
  /-- The end of a text whose last line has no line end yet. -/
  | behindLast (text : List Char) : LineBoundary text

/-- The text with one more line, which is put in at a boundary. -/
def LineBoundary.withLine
    {text : List Char}
    (boundary : LineBoundary text)
    (line : List Char) :
    List Char :=
  match boundary with
  | .inFront earlier later _ => earlier ++ line ++ '\n' :: later
  | .atEnd text _ => text ++ line
  | .behindLast text => text ++ '\n' :: line

/-- A character that is no blank is not trimmed from the front of what follows it. -/
theorem trimEnd_cons
    {character : Char}
    (noBlank : isBlank character = false)
    (rest : List Char) :
    trimEnd (character :: rest) = character :: trimEnd rest := by
  unfold trimEnd
  rw [List.reverse_cons, List.dropWhile_append]
  split
  · next allBlank =>
      rw [List.isEmpty_iff.mp allBlank]
      simp [noBlank]
  · simp

/-- Behind its leading blanks a text is at its end or goes on with another character. -/
theorem trimStart_cases (text : List Char) :
    trimStart text = [] ∨
      ∃ first rest, trimStart text = first :: rest ∧ isBlank first = false := by
  cases shape : trimStart text with
  | nil =>
      exact .inl rfl
  | cons first rest =>
      have noBlank := List.head?_dropWhile_not isBlank text
      rw [← trimStart, shape] at noBlank
      exact .inr ⟨first, rest, rfl, by simpa using noBlank⟩

/-- What stands before the first semicolon of a comment is a comment. -/
theorem IsComment.of_append
    {line rest : List Char}
    (comment : IsComment (line ++ ';' :: rest)) :
    IsComment line := by
  unfold IsComment trimStart at comment ⊢
  rw [List.dropWhile_append] at comment
  split at comment
  · cases comment
  · next begins =>
      cases shape : line.dropWhile isBlank with
      | nil =>
          simp [shape] at begins
      | cons first others =>
          simpa [shape] using comment

end Text

namespace Conventions

open Text (IsComment IsSilent behindSemicolon EndsLine LineBoundary)

@[simp] theorem statements_nil : statements [] = [] := by
  simp [statements, Text.trim, Text.trimStart, Text.trimEnd, isStatement]

/-- The entries that are left out are the silent ones. -/
theorem isStatement_trim_eq_false_iff {entry : List Char} :
    isStatement (Text.trim entry) = false ↔ IsSilent entry := by
  unfold IsSilent IsComment Text.trim
  rcases Text.trimStart_cases entry with blank | ⟨first, rest, begins, noBlank⟩
  · simp [blank, Text.trimEnd, isStatement]
  · simp [begins, Text.trimEnd_cons noBlank, isStatement]

/-- Within a line only semicolons separate entries. -/
theorem splitOnP_separates
    {line : List Char}
    (oneLine : '\n' ∉ line) :
    line.splitOnP separates = line.splitOn ';' := by
  induction line with
  | nil =>
      rfl
  | cons character rest inductionHypothesis =>
      rw [List.mem_cons, not_or] at oneLine
      have sameCut : separates character = (character == ';') := by
        simp [separates, Ne.symm oneLine.1]
      rw [List.splitOn, List.splitOnP_cons_eq_if_modifyHead, List.splitOnP_cons_eq_if_modifyHead,
        inductionHypothesis oneLine.2, List.splitOn, sameCut]

/-- A text on one line states nothing exactly if each of its entries is silent. -/
theorem statements_eq_nil_iff
    {line : List Char}
    (oneLine : '\n' ∉ line) :
    statements line = [] ↔ ∀ entry ∈ line.splitOn ';', IsSilent entry := by
  simp only [statements, splitOnP_separates oneLine, List.filter_eq_nil_iff,
    List.forall_mem_map, Bool.not_eq_true, isStatement_trim_eq_false_iff]

/-- A comment without a semicolon states nothing. -/
theorem statements_eq_nil_of_comment
    {line : List Char}
    (oneLine : '\n' ∉ line)
    (noSemicolon : ';' ∉ line)
    (comment : IsComment line) :
    statements line = [] := by
  have oneEntry : line.splitOn ';' = [line] :=
    List.splitOnP_eq_singleton fun character member => by
      simpa using ne_of_mem_of_not_mem member noSemicolon
  rw [statements_eq_nil_iff oneLine, oneEntry, List.forall_mem_singleton]
  exact .inr comment

/-- A line that starts as a comment states what stands behind its first semicolon. -/
theorem statements_comment
    {line : List Char}
    (oneLine : '\n' ∉ line)
    (comment : IsComment line) :
    statements line = statements (behindSemicolon line) := by
  have whole : line.takeWhile (· != ';') ++ line.dropWhile (· != ';') = line :=
    List.takeWhile_append_dropWhile
  have noSemicolon : ';' ∉ line.takeWhile (· != ';') := fun member => by
    simpa using List.all_eq_true.mp List.all_takeWhile _ member
  have noLineEnd : '\n' ∉ line.takeWhile (· != ';') := fun member =>
    oneLine ((List.takeWhile_prefix _).subset member)
  unfold behindSemicolon
  cases behind : line.dropWhile (· != ';') with
  | nil =>
      rw [behind, List.append_nil] at whole
      rw [whole] at noSemicolon
      exact statements_eq_nil_of_comment oneLine noSemicolon comment
  | cons character rest =>
      have isSemicolon : character = ';' := by
        have notPassed := List.head?_dropWhile_not (· != ';') line
        simpa [behind] using notPassed
      subst isSemicolon
      rw [behind] at whole
      rw [← whole] at comment
      have silent : statements (line.takeWhile (· != ';')) = [] :=
        statements_eq_nil_of_comment noLineEnd noSemicolon comment.of_append
      calc
        statements line =
            statements (line.takeWhile (· != ';') ++ ';' :: rest) := by rw [whole]
        _ = statements (line.takeWhile (· != ';')) ++ statements rest :=
            statements_append_cons rfl _ _
        _ = statements rest := by rw [silent, List.nil_append]

/-- A text that is cut at the beginning of a line states what its two parts state. -/
theorem statements_append
    {earlier : List Char}
    (boundary : EndsLine earlier)
    (later : List Char) :
    statements (earlier ++ later) = statements earlier ++ statements later := by
  rcases boundary with rfl | ⟨before, rfl⟩
  · simp
  · have ended : statements (before ++ ['\n']) = statements before := by
      rw [statements_append_cons rfl, statements_nil, List.append_nil]
    rw [ended, List.append_assoc, List.singleton_append, statements_append_cons rfl]

/-- A line that is put in states what it states, between the entries that are there. -/
theorem exists_statements_withLine
    {text : List Char}
    (boundary : LineBoundary text) :
    ∃ before after,
      statements text = before ++ after ∧
        ∀ line, statements (boundary.withLine line) = before ++ statements line ++ after := by
  cases boundary with
  | inFront earlier later begins =>
      refine ⟨statements earlier, statements later, statements_append begins later, fun line => ?_⟩
      rw [LineBoundary.withLine, statements_append_cons rfl, statements_append begins]
  | atEnd text ended =>
      refine ⟨statements text, [], by simp, fun line => ?_⟩
      rw [LineBoundary.withLine, statements_append ended, List.append_nil]
  | behindLast text =>
      refine ⟨statements text, [], by simp, fun line => ?_⟩
      rw [LineBoundary.withLine, statements_append_cons rfl, List.append_nil]

/-- What is read depends on nothing but what is stated. -/
theorem read_eq_of_statements_eq
    {text other : List Char}
    (same : statements text = statements other) :
    read (String.ofList text) = read (String.ofList other) := by
  simp only [read, String.toList_ofList, same]

/-- Only a text that states nothing is read as no conventions at all. -/
theorem read_eq_ok_empty_iff {text : List Char} :
    read (String.ofList text) = .ok empty ↔ statements text = [] := by
  simp only [read, String.toList_ofList]
  cases statements text with
  | nil =>
      simp [empty]
  | cons entry entries =>
      simp [empty, Outcome.bind_eq_ok_iff]

/--
A line that starts as a comment is read like what stands behind its first
semicolon. So it makes no difference to put it in, at any boundary of a line of
any text, exactly if each entry behind that semicolon is blank or a comment
again; in particular if there is no semicolon in the line.
-/
theorem read_withComment_iff
    {line : List Char}
    (oneLine : '\n' ∉ line)
    (comment : IsComment line) :
    (∀ (text : List Char) (boundary : LineBoundary text),
        read (String.ofList (boundary.withLine line)) =
          read (String.ofList (boundary.withLine (behindSemicolon line)))) ∧
      ((∀ (text : List Char) (boundary : LineBoundary text),
          read (String.ofList (boundary.withLine line)) = read (String.ofList text)) ↔
        ∀ entry ∈ (behindSemicolon line).splitOn ';', IsSilent entry) := by
  have asBehind : statements line = statements (behindSemicolon line) :=
    statements_comment oneLine comment
  have noLineEnd : '\n' ∉ behindSemicolon line := fun member =>
    oneLine ((List.dropWhile_suffix _).subset (List.mem_of_mem_tail member))
  rw [← statements_eq_nil_iff noLineEnd, ← asBehind]
  refine ⟨fun text boundary => read_eq_of_statements_eq ?_, ?_, ?_⟩
  · obtain ⟨before, after, _, withLine⟩ := exists_statements_withLine boundary
    rw [withLine, withLine, asBehind]
  · -- Alone in a text, the line is read as what it states.
    intro unchanged
    have alone : read (String.ofList line) = read (String.ofList []) :=
      unchanged [] (.atEnd [] (.inl rfl))
    rw [← read_eq_ok_empty_iff, alone, read_eq_ok_empty_iff, statements_nil]
  · intro nothing text boundary
    obtain ⟨before, after, whole, withLine⟩ := exists_statements_withLine boundary
    refine read_eq_of_statements_eq ?_
    rw [withLine, nothing, whole, List.append_nil]

/-- A comment that is continued as a comment behind its semicolon. -/
def continuedComment : List Char := " # sets; # and relations ;".toList

/-- Between two conventions such a comment makes no difference. -/
theorem read_withComment_continuedComment :
    '\n' ∉ continuedComment ∧
      IsComment continuedComment ∧
      (∀ entry ∈ (behindSemicolon continuedComment).splitOn ';', IsSilent entry) ∧
      read "x: var e\n # sets; # and relations ;\nP: const <et>" =
        read "x: var e\nP: const <et>" := by
  have oneLine : '\n' ∉ continuedComment := by
    decide
  have comment : IsComment continuedComment := rfl
  have entries :
      (behindSemicolon continuedComment).splitOn ';' = [" # and relations ".toList, []] := by
    rfl
  have silent :
      ∀ entry ∈ (behindSemicolon continuedComment).splitOn ';', IsSilent entry := by
    rw [entries, List.forall_mem_cons, List.forall_mem_singleton]
    exact ⟨.inr rfl, .inl rfl⟩
  obtain ⟨_, unchanged⟩ := read_withComment_iff oneLine comment
  have begins : EndsLine "x: var e\n".toList := .inr ⟨"x: var e".toList, rfl⟩
  exact ⟨oneLine, comment, silent,
    unchanged.mpr silent _ (.inFront _ "P: const <et>".toList begins)⟩

/-- A comment may state a convention behind its semicolon. -/
theorem exists_comment_states :
    ∃ (line text : List Char) (boundary : LineBoundary text),
      '\n' ∉ line ∧ IsComment line ∧
        read (String.ofList text) = .ok ⟨[⟨'x', 'x', .variable, .entity⟩]⟩ ∧
        read (String.ofList (boundary.withLine line)) =
          .ok ⟨[⟨'x', 'x', .variable, .entity⟩, ⟨'y', 'y', .variable, .truth⟩]⟩ := by
  refine ⟨"# entities; y: var t".toList, "x: var e".toList, .behindLast _, ?_, ?_, ?_, ?_⟩
  · decide
  · rfl
  · rfl
  · rfl

end Conventions

end TypedLambda
