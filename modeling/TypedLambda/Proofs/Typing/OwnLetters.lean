import TypedLambda.Proofs.Typing.SameType

namespace TypedLambda.Term

/-!
# Where the letters of a type come from

The type of a term has letters from the types of its identifiers, which are its
own, and new ones, which applications have taken to keep arguments apart from
their functions. A new letter is chosen with regard to a function and its
argument alone. It may therefore meet the same letter in the type of a bound
variable, of a neighbour in a tuple or of the other side of an equation, and
then two variables that have nothing to do with each other become one. Where
that does not happen the term is hygienic.
-/

/-- The letter of every occurrence of a type variable in the types of identifiers. -/
def letters (term : Term) : List Char :=
  term.identifiers.flatMap fun identifier => identifier.ty.letters

/-- The letters of the type of a term, none if it has no type. -/
def typeLetters (term : Term) : List Char :=
  match term.typeOf with
  | .ok ty => ty.letters
  | .error _ => []

mutual

/--
The letters that the type of a term has from identifiers. An argument keeps a
letter of its own if its function does not have the letter too.
-/
def ownLetters : Term → List Char
  | .var identifier => identifier.ty.letters
  | .const identifier => identifier.ty.letters
  | .bind .lambda bound body => bound.ty.letters ++ body.ownLetters
  | .bind .description bound _ => bound.ty.letters
  | .bind .universal _ _ => []
  | .bind .existential _ _ => []
  | .app function argument =>
      (function.ownLetters ++
          argument.ownLetters.filter fun letter => letter ∉ function.typeLetters).filter
        fun letter => letter ∈ (app function argument).typeLetters
  | .tuple items => ownLettersOfAll items
  | .neg _ => []
  | .connect _ _ _ => []
  | .equal _ _ => []
  | .relate _ _ _ => []

/-- The own letters of the terms in a list, one term after the other. -/
def ownLettersOfAll : List Term → List Char
  | [] => []
  | term :: rest => term.ownLetters ++ ownLettersOfAll rest

end

/-- Letters that the types of both terms have are own letters of both. -/
def Apart (first second : Term) : Prop :=
  ∀ letter ∈ first.typeLetters, letter ∈ second.typeLetters →
    letter ∈ first.ownLetters ∧ letter ∈ second.ownLetters

/--
A function and an argument can be kept apart: there are letters enough, and no
own letter of the argument is a new one in the type of the function.
-/
def Separable (function argument : Term) : Prop :=
  (∀ letter ∈ function.typeLetters,
      letter ∈ argument.ownLetters → letter ∈ function.ownLetters) ∧
    ∀ functionType argumentType : Ty,
      function.typeOf = .ok functionType →
        argument.typeOf = .ok argumentType →
          argumentType.LettersSuffice functionType

mutual

/-- No new letter meets the same letter of anything else. -/
def Hygienic : Term → Prop
  | .var _ => True
  | .const _ => True
  | .bind .lambda bound body => Apart (.var bound) body ∧ body.Hygienic
  | .bind _ _ body => body.Hygienic
  | .app function argument =>
      Separable function argument ∧ function.Hygienic ∧ argument.Hygienic
  | .tuple items => AllHygienic items
  | .neg operand => operand.Hygienic
  | .connect _ left right => left.Hygienic ∧ right.Hygienic
  | .equal left right => Apart left right ∧ left.Hygienic ∧ right.Hygienic
  | .relate _ left right => Apart left right ∧ left.Hygienic ∧ right.Hygienic

/-- No new letter in the terms of a list meets the same letter of anything else. -/
def AllHygienic : List Term → Prop
  | [] => True
  | term :: rest => Apart term (.tuple rest) ∧ term.Hygienic ∧ AllHygienic rest

end

section Letters

variable {term : Term} {ty : Ty} {letter : Char}

theorem typeLetters_eq (typed : term.typeOf = .ok ty) : term.typeLetters = ty.letters := by
  simp only [typeLetters, typed]

/-- An identifier's letters are letters of the term. -/
theorem mem_letters {identifier : Identifier}
    (mentioned : identifier ∈ term.identifiers)
    (member : letter ∈ identifier.ty.letters) :
    letter ∈ term.letters :=
  List.mem_flatMap.mpr ⟨identifier, mentioned, member⟩

end Letters

/-- The own letters of a function, and those of its argument that the function does not have. -/
def lettersToApply (function argument : Term) : List Char :=
  function.ownLetters ++
    argument.ownLetters.filter fun letter => letter ∉ function.typeLetters

theorem ownLetters_app (function argument : Term) :
    (app function argument).ownLetters =
      (lettersToApply function argument).filter fun letter =>
        letter ∈ (app function argument).typeLetters := by
  rw [ownLetters, lettersToApply]

/-- The types of the identifiers have known letters only. -/
def LettersWithin (known : Set Char) (term : Term) : Prop :=
  ∀ identifier ∈ term.identifiers, identifier.ty.letterSet ⊆ known

section LettersWithin

variable {known : Set Char} {identifier : Identifier} {first second : Term}

theorem lettersWithin_var :
    (var identifier).LettersWithin known ↔ identifier.ty.letterSet ⊆ known := by
  simp [LettersWithin, identifiers]

theorem lettersWithin_const :
    (const identifier).LettersWithin known ↔ identifier.ty.letterSet ⊆ known := by
  simp [LettersWithin, identifiers]

theorem lettersWithin_bind {binder : Binder} :
    (bind binder identifier first).LettersWithin known ↔
      identifier.ty.letterSet ⊆ known ∧ first.LettersWithin known :=
  List.forall_mem_cons

theorem lettersWithin_app :
    (app first second).LettersWithin known ↔
      first.LettersWithin known ∧ second.LettersWithin known :=
  List.forall_mem_append

theorem lettersWithin_tuple_cons {items : List Term} :
    (tuple (first :: items)).LettersWithin known ↔
      first.LettersWithin known ∧ (tuple items).LettersWithin known :=
  List.forall_mem_append

theorem lettersWithin_connect {connective : Connective} :
    (connect connective first second).LettersWithin known ↔
      first.LettersWithin known ∧ second.LettersWithin known :=
  List.forall_mem_append

theorem lettersWithin_equal :
    (equal first second).LettersWithin known ↔
      first.LettersWithin known ∧ second.LettersWithin known :=
  List.forall_mem_append

theorem lettersWithin_relate {relation : SetRelation} :
    (relate relation first second).LettersWithin known ↔
      first.LettersWithin known ∧ second.LettersWithin known :=
  List.forall_mem_append

end LettersWithin

/-- A change makes no two own letters of two terms the same. -/
def StayDistinct (change : Char → Char) (first second : Term) : Prop :=
  ∀ letter ∈ first.ownLetters, ∀ other ∈ second.ownLetters,
    change letter = change other → letter = other

section OwnLetters

variable {known : Set Char} {first second term : Term} {ty : Ty} {letter : Char}

/-- Own letters are letters of identifiers. -/
theorem LettersWithin.mem_of_mem_ownLetters
    (within : term.LettersWithin known)
    (member : letter ∈ term.ownLetters) :
    letter ∈ known := by
  induction term with
  | var identifier =>
      exact lettersWithin_var.mp within member
  | const identifier =>
      exact lettersWithin_const.mp within member
  | bind binder bound body inductionHypothesis =>
      obtain ⟨boundKnown, bodyWithin⟩ := lettersWithin_bind.mp within
      cases binder with
      | lambda =>
          exact (List.mem_append.mp member).elim (fun inBound => boundKnown inBound)
            (inductionHypothesis bodyWithin)
      | description =>
          exact boundKnown member
      | universal | existential =>
          cases member
  | app function argument functionHypothesis argumentHypothesis =>
      obtain ⟨functionWithin, argumentWithin⟩ := lettersWithin_app.mp within
      rcases List.mem_append.mp (List.mem_filter.mp member).1 with inFunction | inArgument
      · exact functionHypothesis functionWithin inFunction
      · exact argumentHypothesis argumentWithin (List.mem_filter.mp inArgument).1
  | tuple items inductionHypothesis =>
      induction items with
      | nil =>
          cases member
      | cons head tail tailHypothesis =>
          obtain ⟨headWithin, tailWithin⟩ := lettersWithin_tuple_cons.mp within
          refine (List.mem_append.mp member).elim
            (inductionHypothesis head (by simp) headWithin) fun inTail => ?_
          exact tailHypothesis (fun item isItem =>
            inductionHypothesis item (List.mem_cons_of_mem _ isItem)) tailWithin inTail
  | neg | connect | equal | relate =>
      cases member

theorem StayDistinct.of_injOn
    {change : Char → Char}
    (injective : Set.InjOn change known)
    (firstWithin : first.LettersWithin known)
    (secondWithin : second.LettersWithin known) :
    StayDistinct change first second :=
  fun _ isOwn _ otherOwn same =>
    injective (firstWithin.mem_of_mem_ownLetters isOwn)
      (secondWithin.mem_of_mem_ownLetters otherOwn) same

/-- Own letters are letters of the type. -/
theorem mem_letters_of_mem_ownLetters
    (typed : term.typeOf = .ok ty)
    (member : letter ∈ term.ownLetters) :
    letter ∈ ty.letters := by
  induction term generalizing ty with
  | var identifier | const identifier =>
      cases typed
      exact member
  | bind binder bound body inductionHypothesis =>
      cases binder with
      | lambda =>
          obtain ⟨range, ofBody, rfl⟩ := typeOf_lambda_eq_ok_iff.mp typed
          exact List.mem_append.mpr
            ((List.mem_append.mp member).imp_right (inductionHypothesis ofBody))
      | description =>
          obtain ⟨_, rfl⟩ := (typeOf_bind_eq_ok_iff (by decide)).mp typed
          exact member
      | universal | existential =>
          cases member
  | app function argument _ _ =>
      rw [← typeLetters_eq typed]
      exact of_decide_eq_true (List.mem_filter.mp member).2
  | tuple items inductionHypothesis =>
      induction items generalizing ty with
      | nil =>
          cases member
      | cons head tail tailHypothesis =>
          obtain ⟨headType, factors, ofHead, ofTail, rfl⟩ :=
            typeOf_tuple_cons_eq_ok_iff.mp typed
          rw [Ty.letters, Ty.lettersOfAll, List.mem_append]
          refine (List.mem_append.mp member).imp (inductionHypothesis head (by simp) ofHead)
            fun inTail => ?_
          exact tailHypothesis (fun item isItem =>
            inductionHypothesis item (List.mem_cons_of_mem _ isItem)) ofTail inTail
  | neg | connect | equal | relate =>
      cases member

end OwnLetters

end TypedLambda.Term
