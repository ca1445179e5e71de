import TypedLambda.Proofs.Ty.ReaderSteps

namespace TypedLambda.Ty

/-!
# The grammar of types

Which texts denote which types, without regard to how they are read:

    type    =  factor  |  factors                    (two factors or more)
    factors =  factor  |  factors × factor  |  factors * factor
    factor  =  letter  |  ' letter  |  < type , type >  |  < type type >  |  ( type )

The letters are small ones, and a quote with its letter is a single sign. Blanks
may stand in front of every sign and at the end of the text. Here every phrase
of the grammar is shown to be read.
-/

/-- A list of blanks. -/
def AllBlank (text : List Char) : Prop :=
  ∀ character ∈ text, Text.isBlank character = true

theorem allBlank_nil : AllBlank [] := by
  simp [AllBlank]

theorem AllBlank.snoc
    {blanks : List Char}
    {blank : Char}
    (allBlank : AllBlank blanks)
    (isBlank : Text.isBlank blank = true) :
    AllBlank (blanks ++ [blank]) :=
  List.forall_mem_append.mpr ⟨allBlank, by simpa using isBlank⟩

/-- The text is a sign with blanks in front of it. -/
def Written (sign text : List Char) : Prop :=
  ∃ blanks, AllBlank blanks ∧ text = blanks ++ sign

theorem AllBlank.written
    {blanks : List Char}
    (allBlank : AllBlank blanks)
    (character : Char) :
    Written [character] (blanks ++ [character]) :=
  ⟨blanks, allBlank, rfl⟩

/-- A phrase of the grammar, with what it denotes. -/
inductive Phrase where
  | type (ty : Ty)
  | factors (factors : List Ty)
  | factor (ty : Ty)

/-- The text is a phrase. -/
inductive Derives : List Char → Phrase → Prop where
  /-- A letter is a basic type. -/
  | letter
      {letter : Char}
      {text : List Char}
      (small : Text.isSmallLetter letter = true)
      (written : Written [letter] text) :
      Derives text (.factor (.atom letter))
  /-- A quote with a letter right behind it is a type variable. -/
  | quoted
      {letter : Char}
      {text : List Char}
      (small : Text.isSmallLetter letter = true)
      (written : Written ['\x27', letter] text) :
      Derives text (.factor (.var letter))
  /-- A function type; a comma between domain and range may be left out. -/
  | function
      {first domainText comma rangeText last : List Char}
      {domain range : Ty}
      (opens : Written ['<'] first)
      (ofDomain : Derives domainText (.type domain))
      (separates : comma = [] ∨ Written [','] comma)
      (ofRange : Derives rangeText (.type range))
      (closes : Written ['>'] last) :
      Derives (first ++ (domainText ++ (comma ++ (rangeText ++ last))))
        (.factor (.fn domain range))
  /-- A type in parentheses denotes the same type. -/
  | group
      {first text last : List Char}
      {ty : Ty}
      (opens : Written ['('] first)
      (ofType : Derives text (.type ty))
      (closes : Written [')'] last) :
      Derives (first ++ (text ++ last)) (.factor ty)
  /-- A single factor. -/
  | one
      {text : List Char}
      {factor : Ty}
      (ofFactor : Derives text (.factor factor)) :
      Derives text (.factors [factor])
  /-- Factors and a further one behind × or *. -/
  | further
      {text times more : List Char}
      {sign : Char}
      {factors : List Ty}
      {factor : Ty}
      (ofFactors : Derives text (.factors factors))
      (isTimes : sign = '×' ∨ sign = '*')
      (written : Written [sign] times)
      (ofFactor : Derives more (.factor factor)) :
      Derives (text ++ (times ++ more)) (.factors (factors ++ [factor]))
  /-- A single factor stands for itself. -/
  | itself
      {text : List Char}
      {ty : Ty}
      (ofFactors : Derives text (.factors [ty])) :
      Derives text (.type ty)
  /-- Two factors or more make one product. -/
  | product
      {text : List Char}
      {factors : List Ty}
      (several : 2 ≤ factors.length)
      (ofFactors : Derives text (.factors factors)) :
      Derives text (.type (.prod factors))

/-- The text is a type and perhaps blanks behind it. -/
def Denotes (text : List Char) (ty : Ty) : Prop :=
  ∃ front blanks, text = front ++ blanks ∧ AllBlank blanks ∧ Derives front (.type ty)

/-- There is a factor among factors. -/
theorem Derives.ne_nil
    {text : List Char}
    {factors : List Ty}
    (derives : Derives text (.factors factors)) :
    factors ≠ [] := by
  cases derives <;> simp

/-- Factors are a type, whatever their number. -/
theorem Derives.type
    {text : List Char}
    {factors : List Ty}
    (derives : Derives text (.factors factors)) :
    Derives text (.type (Reader.product factors)) := by
  match factors, derives.ne_nil with
  | [_], _ =>
      exact .itself derives
  | _ :: _ :: _, _ =>
      exact .product (by simp) derives

namespace Reader

variable {state next : State} {text : List Char}

/-- Blanks make no difference between signs. -/
theorem reads_blanks
    (between : state.mode ≠ .letter)
    {blanks : List Char}
    (allBlank : AllBlank blanks) :
    Reads state blanks state := by
  induction blanks with
  | nil =>
      exact .nil state
  | cons blank blanks inductionHypothesis =>
      obtain ⟨isBlank, others⟩ := List.forall_mem_cons.mp allBlank
      exact .cons (.blank between isBlank) (inductionHypothesis others)

/-- A sign is read together with the blanks in front of it. -/
theorem reads_written
    {sign : List Char}
    (between : state.mode ≠ .letter)
    (written : Written sign text)
    (reads : Reads state sign next) :
    Reads state text next := by
  obtain ⟨blanks, allBlank, rfl⟩ := written
  exact (reads_blanks between allBlank).append reads

/-- Behind a domain without a comma the range is read as it is behind the comma. -/
theorem Reads.rangeAtOnce
    {factors before after : List Ty}
    {outer others : List Level}
    (reads :
      Reads ⟨.factor, [], ⟨before, .range (product factors)⟩ :: outer⟩ text
        ⟨.continuation, after, others⟩) :
    Reads ⟨.continuation, factors, ⟨before, .domain⟩ :: outer⟩ text
      ⟨.continuation, after, others⟩ := by
  induction text with
  | nil =>
      cases reads
  | cons character text inductionHypothesis =>
      cases reads with
      | cons step reads =>
          cases step with
          | blank _ isBlank =>
              exact .cons (.blank (by simp) isBlank) (inductionHypothesis reads)
          | factor begins =>
              exact .cons (.rangeAtOnce begins) reads

/-- The phrase is read wherever it may come. -/
def ReadsPhrase (text : List Char) : Phrase → Prop
  | .type ty =>
      ∃ factors, product factors = ty ∧
        ∀ outer, Reads ⟨.factor, [], outer⟩ text ⟨.continuation, factors, outer⟩
  | .factors factors =>
      ∀ outer, Reads ⟨.factor, [], outer⟩ text ⟨.continuation, factors, outer⟩
  | .factor ty =>
      ∀ before outer,
        Reads ⟨.factor, before, outer⟩ text ⟨.continuation, before ++ [ty], outer⟩

/-- Every phrase of the grammar is read. -/
theorem readsPhrase_of_derives
    {phrase : Phrase}
    (derives : Derives text phrase) :
    ReadsPhrase text phrase := by
  induction derives with
  | letter small written =>
      exact fun _ _ => reads_written (by simp) written (.single (.factor (.atom small)))
  | quoted small written =>
      exact fun _ _ =>
        reads_written (by simp) written (.cons (.factor .quote) (.single (.letter small)))
  | @function _ _ comma rangeText last _ range opens _ separates _ closes
      domainHypothesis rangeHypothesis =>
      intro before outer
      obtain ⟨domainFactors, rfl, readsDomain⟩ := domainHypothesis
      obtain ⟨rangeFactors, rfl, readsRange⟩ := rangeHypothesis
      have toRange :
          Reads ⟨.continuation, domainFactors, ⟨before, .domain⟩ :: outer⟩ (comma ++ rangeText)
            ⟨.continuation, rangeFactors, ⟨before, .range (product domainFactors)⟩ :: outer⟩ := by
        rcases separates with rfl | isComma
        · exact (readsRange _).rangeAtOnce
        · exact (reads_written (by simp) isComma (.single .comma)).append (readsRange _)
      have toEnd := toRange.append (reads_written (by simp) closes (.single .closeFunction))
      rw [List.append_assoc] at toEnd
      exact (reads_written (by simp) opens (.single (.factor .function))).append
        ((readsDomain _).append toEnd)
  | group opens _ closes typeHypothesis =>
      intro before outer
      obtain ⟨factors, rfl, readsType⟩ := typeHypothesis
      exact (reads_written (by simp) opens (.single (.factor .group))).append
        ((readsType _).append (reads_written (by simp) closes (.single .closeGroup)))
  | one _ factorHypothesis =>
      exact factorHypothesis []
  | further _ isTimes written _ factorsHypothesis factorHypothesis =>
      intro outer
      refine (factorsHypothesis outer).append (Reads.append ?_ (factorHypothesis _ outer))
      exact reads_written (by simp) written (.single (.times isTimes))
  | itself _ factorsHypothesis =>
      exact ⟨_, rfl, factorsHypothesis⟩
  | @product _ factors several _ factorsHypothesis =>
      refine ⟨factors, ?_, factorsHypothesis⟩
      match factors, several with
      | _ :: _ :: _, _ =>
          rfl

end Reader

end TypedLambda.Ty
