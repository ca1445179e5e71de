import TypedLambda.Proofs.Ty.Grammar

namespace TypedLambda.Ty

/-!
# What is read is derived

Whatever the reader has put together is derived by the grammar from the text
that it has read: the factors of the innermost product, the factors of the
products around it, and the domains whose ranges are still to come. Every step
keeps this up. With what has been said of the grammar, the reader accepts
exactly the texts that denote a type, and no text denotes two types.
-/

namespace Reader

/-- Factors with a sign behind each, or nothing. -/
inductive Pending : List Ty → List Char → Prop where
  | nil : Pending [] []
  | times
      {factors : List Ty}
      {text times : List Char}
      {sign : Char}
      (derives : Derives text (.factors factors))
      (isTimes : sign = '×' ∨ sign = '*')
      (written : Written [sign] times) :
      Pending factors (text ++ times)

/-- The text from what opened a product up to the product's start. -/
inductive Opens : Opening → List Char → Prop where
  | domain
      {first : List Char}
      (opens : Written ['<'] first) :
      Opens .domain first
  | range
      {first text comma : List Char}
      {domain : Ty}
      (opens : Written ['<'] first)
      (ofDomain : Derives text (.type domain))
      (separates : comma = [] ∨ Written [','] comma) :
      Opens (.range domain) (first ++ (text ++ comma))
  | group
      {first : List Char}
      (opens : Written ['('] first) :
      Opens .group first

/-- The text around a product, from the start up to where the product starts. -/
inductive Encloses : List Level → List Char → Prop where
  | nil : Encloses [] []
  | cons
      {before : List Ty}
      {opening : Opening}
      {outer : List Level}
      {around text opened : List Char}
      (encloses : Encloses outer around)
      (pending : Pending before text)
      (opens : Opens opening opened) :
      Encloses (⟨before, opening⟩ :: outer) (around ++ (text ++ opened))

/-- What the reader has put together is derived from the text that it has read. -/
inductive Represents : State → List Char → Prop where
  | factor
      {factors : List Ty}
      {outer : List Level}
      {around text blanks : List Char}
      (encloses : Encloses outer around)
      (pending : Pending factors text)
      (allBlank : AllBlank blanks) :
      Represents ⟨.factor, factors, outer⟩ (around ++ (text ++ blanks))
  | letter
      {factors : List Ty}
      {outer : List Level}
      {around text quote : List Char}
      (encloses : Encloses outer around)
      (pending : Pending factors text)
      (written : Written ['\x27'] quote) :
      Represents ⟨.letter, factors, outer⟩ (around ++ (text ++ quote))
  | continuation
      {factors : List Ty}
      {outer : List Level}
      {around text blanks : List Char}
      (encloses : Encloses outer around)
      (derives : Derives text (.factors factors))
      (allBlank : AllBlank blanks) :
      Represents ⟨.continuation, factors, outer⟩ (around ++ (text ++ blanks))

variable {factors before : List Ty} {outer : List Level}
variable {around text more blanks : List Char} {character : Char}

/-- The factor behind the last sign completes the factors. -/
theorem Pending.further
    {factor : Ty}
    (pending : Pending before text)
    (derives : Derives more (.factor factor)) :
    Derives (text ++ more) (.factors (before ++ [factor])) := by
  cases pending with
  | nil =>
      exact .one derives
  | times derivesFactors isTimes written =>
      rw [List.append_assoc]
      exact .further derivesFactors isTimes written derives

/-- A whole factor is taken up, and nothing stands behind it yet. -/
theorem Represents.add
    {factor : Ty}
    (encloses : Encloses outer around)
    (pending : Pending before text)
    (derives : Derives more (.factor factor)) :
    Represents ⟨.continuation, before ++ [factor], outer⟩ (around ++ (text ++ more)) := by
  simpa using Represents.continuation encloses (pending.further derives) allBlank_nil

/-- A product begins behind what opens it. -/
theorem Represents.enter
    {opening : Opening}
    (encloses : Encloses outer around)
    (pending : Pending before text)
    (opens : Opens opening more) :
    Represents ⟨.factor, [], ⟨before, opening⟩ :: outer⟩ (around ++ (text ++ more)) := by
  simpa using Represents.factor (encloses.cons pending opens) .nil allBlank_nil

/-- Where a factor may begin, its first character leads to a state that stands for the text. -/
theorem Represents.begins
    {next : State}
    (represents : Represents ⟨.factor, before, outer⟩ text)
    (begins : Begins ⟨.factor, before, outer⟩ character next) :
    Represents next (text ++ [character]) := by
  cases represents with
  | factor encloses pending allBlank =>
      have written := allBlank.written character
      simp only [List.append_assoc]
      cases begins with
      | function =>
          exact .enter encloses pending (.domain written)
      | group =>
          exact .enter encloses pending (.group written)
      | quote =>
          exact .letter encloses pending written
      | atom small =>
          exact .add encloses pending (.letter small written)

/-- Behind a whole domain the range may come. -/
theorem Represents.toRange
    (represents : Represents ⟨.continuation, factors, ⟨before, .domain⟩ :: outer⟩ text) :
    Represents ⟨.factor, [], ⟨before, .range (product factors)⟩ :: outer⟩ text ∧
      Represents ⟨.factor, [], ⟨before, .range (product factors)⟩ :: outer⟩ (text ++ [',']) := by
  cases represents with
  | continuation encloses derives allBlank =>
      cases encloses with
      | cons encloses pending opens =>
          cases opens with
          | domain opens =>
              constructor
              -- Without a comma the blanks behind the domain are those in front of the range.
              · have opened := encloses.cons pending (.range opens derives.type (.inl rfl))
                simpa using Represents.factor opened .nil allBlank
              · have comma := allBlank.written ','
                have opened := Opens.range opens derives.type (.inr comma)
                simpa using Represents.enter encloses pending opened

/-- Every step keeps up what the state stands for. -/
theorem Represents.step
    {state next : State}
    (represents : Represents state text)
    (step : Step state character next) :
    Represents next (text ++ [character]) := by
  cases step with
  | blank between isBlank =>
      cases represents with
      | factor encloses pending allBlank =>
          simpa using Represents.factor encloses pending (allBlank.snoc isBlank)
      | letter =>
          simp at between
      | continuation encloses derives allBlank =>
          simpa using Represents.continuation encloses derives (allBlank.snoc isBlank)
  | factor begins =>
      exact represents.begins begins
  | letter small =>
      cases represents with
      | letter encloses pending written =>
          obtain ⟨blanks, allBlank, rfl⟩ := written
          simpa using Represents.add encloses pending (.quoted small ⟨blanks, allBlank, rfl⟩)
  | times isTimes =>
      cases represents with
      | continuation encloses derives allBlank =>
          have pending := Pending.times derives isTimes (allBlank.written character)
          simpa using Represents.factor encloses pending allBlank_nil
  | comma =>
      exact represents.toRange.2
  | rangeAtOnce begins =>
      exact represents.toRange.1.begins begins
  | closeFunction =>
      cases represents with
      | continuation encloses derives allBlank =>
          cases encloses with
          | cons encloses pending opens =>
              cases opens with
              | range opens ofDomain separates =>
                  have closes := allBlank.written '>'
                  simpa using Represents.add encloses pending
                    (.function opens ofDomain separates derives.type closes)
  | closeGroup =>
      cases represents with
      | continuation encloses derives allBlank =>
          cases encloses with
          | cons encloses pending opens =>
              cases opens with
              | group opens =>
                  have closes := allBlank.written ')'
                  simpa using Represents.add encloses pending (.group opens derives.type closes)

/-- However much is read, the state stands for the text. -/
theorem Represents.reads
    {state last : State}
    (represents : Represents state text)
    (reads : Reads state more last) :
    Represents last (text ++ more) := by
  induction reads generalizing text with
  | nil =>
      simpa using represents
  | cons step _ inductionHypothesis =>
      simpa using inductionHypothesis (represents.step step)

theorem represents_start : Represents start [] :=
  .factor .nil .nil allBlank_nil

end Reader

/-- A text is read as a type exactly if it denotes the type. -/
theorem read_iff_denotes
    {text : String}
    {ty : Ty} :
    read text = .ok ty ↔ Denotes text.toList ty := by
  rw [read_eq_ok_iff]
  constructor
  · intro readToEnd
    obtain ⟨factors, reads, rfl⟩ := readToEnd
    have represents := Reader.represents_start.reads reads
    rw [List.nil_append] at represents
    generalize text.toList = characters at represents
    cases represents with
    | continuation encloses derives allBlank =>
        cases encloses
        exact ⟨_, _, List.nil_append _, allBlank, derives.type⟩
  · intro denotes
    obtain ⟨front, blanks, isText, allBlank, derives⟩ := denotes
    obtain ⟨factors, isProduct, reads⟩ := Reader.readsPhrase_of_derives derives
    refine ⟨factors, ?_, isProduct⟩
    rw [isText]
    exact (reads []).append (Reader.reads_blanks (by simp) allBlank)

/--
The grammar of types is what is read: a text is read as a type exactly if it
denotes the type, and no text denotes two types.
-/
theorem read_eq_ok_iff_denotes (text : String) :
    (∀ ty, read text = .ok ty ↔ Denotes text.toList ty) ∧
      ∀ first second, Denotes text.toList first → Denotes text.toList second → first = second := by
  refine ⟨fun ty => read_iff_denotes, fun first second denotesFirst denotesSecond => ?_⟩
  have readFirst := read_iff_denotes.mpr denotesFirst
  have readSecond := read_iff_denotes.mpr denotesSecond
  exact Except.ok.inj (readFirst.symm.trans readSecond)

/-- The function type <'a×(e×t),t>, with blanks and without a comma. -/
theorem read_eq_ok_iff_denotes_withoutComma :
    Denotes " < 'a*(e × t)t > ".toList (.fn (.prod [.var 'a', .prod [entity, truth]]) truth) ∧
      ∀ other,
        Denotes " < 'a*(e × t)t > ".toList other →
          other = .fn (.prod [.var 'a', .prod [entity, truth]]) truth := by
  obtain ⟨accepts, unique⟩ := read_eq_ok_iff_denotes " < 'a*(e × t)t > "
  have denotes := (accepts (.fn (.prod [.var 'a', .prod [entity, truth]]) truth)).mp rfl
  exact ⟨denotes, fun other denotesOther => unique _ _ denotesOther denotes⟩

end TypedLambda.Ty
