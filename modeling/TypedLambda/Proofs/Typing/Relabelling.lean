import TypedLambda.Proofs.Ty.ApplicationLetters
import TypedLambda.Proofs.Typing.OwnLetters

namespace TypedLambda.Term

/-!
# Typing with other letters

The letters of type variables do not matter to the types of hygienic terms. If
different variables of such a term get different letters, and the term is still
hygienic afterwards, then it has a type exactly if it had one before, and the
two types are the same up to letters. The letters of the type need not change
as those of the term do: the new letters that applications have taken may be
others now. Own letters do change as in the term, and since only these can meet
letters of other parts of a hygienic term, the changes for the types of its
parts fit together.
-/

open Ty (ChangesApart)

/-- The term with other letters for its type variables. -/
def relabel (change : Char → Char) (term : Term) : Term :=
  term.mapTypes (Ty.relabel change)

theorem relabel_app (change : Char → Char) (function argument : Term) :
    (app function argument).relabel change =
      app (function.relabel change) (argument.relabel change) :=
  rfl

/--
With other letters, a term has the same type up to letters, and its own letters
are changed in the type as they are in the term.
-/
structure TypedAlike
    (change onType : Char → Char)
    (term : Term)
    (ty : Ty) : Prop where
  before : term.typeOf = .ok ty
  after : (term.relabel change).typeOf = .ok (ty.relabel onType)
  injective : Set.InjOn onType ty.letterSet
  onOwn : ∀ letter ∈ term.ownLetters, onType letter = change letter
  own : (term.relabel change).ownLetters = term.ownLetters.map change

namespace TypedAlike

variable {change onType other : Char → Char} {known : Set Char} {term : Term} {ty : Ty}
  {letter : Char}

/-- Only what happens to the letters of the type matters. -/
theorem congr
    (alike : TypedAlike change onType term ty)
    (same : Set.EqOn other onType ty.letterSet) :
    TypedAlike change other term ty where
  before := alike.before
  after := by rw [alike.after, Ty.relabel_congr same]
  injective := alike.injective.congr same.symm
  onOwn letter member := by
    rw [same (mem_letters_of_mem_ownLetters alike.before member), alike.onOwn letter member]
  own := alike.own

/-- A letter of the changed type is the image of one of the type. -/
theorem mem_typeLetters_iff (alike : TypedAlike change onType term ty) :
    letter ∈ (term.relabel change).typeLetters ↔
      ∃ source ∈ ty.letters, onType source = letter := by
  rw [typeLetters_eq alike.after, Ty.mem_letters_relabel]

/-- A letter of the type that turns into an own letter is one itself. -/
theorem mem_ownLetters_of_after
    (alike : TypedAlike change onType term ty)
    (member : letter ∈ ty.letters)
    (isOwn : onType letter ∈ (term.relabel change).ownLetters) :
    letter ∈ term.ownLetters := by
  rw [alike.own, List.mem_map] at isOwn
  obtain ⟨source, sourceOwn, same⟩ := isOwn
  rw [← alike.onOwn source sourceOwn] at same
  have inType := mem_letters_of_mem_ownLetters alike.before sourceOwn
  exact alike.injective inType member same ▸ sourceOwn

/-- The letters of an identifier are all its own. -/
theorem of_identifier
    {identifier : Identifier}
    (injective : Set.InjOn change known)
    (lettersKnown : identifier.ty.letterSet ⊆ known) :
    TypedAlike change change (.var identifier) identifier.ty ∧
      TypedAlike change change (.const identifier) identifier.ty :=
  have stillInjective := injective.mono lettersKnown
  have own := Ty.letters_relabel change identifier.ty
  ⟨⟨rfl, rfl, stillInjective, fun _ _ => rfl, own⟩,
    ⟨rfl, rfl, stillInjective, fun _ _ => rfl, own⟩⟩

/-- What is a truth value before and after has no letters to be changed. -/
theorem of_truth
    (before : term.typeOf = .ok .truth)
    (after : (term.relabel change).typeOf = .ok .truth)
    (noneOwn : term.ownLetters = [])
    (stillNoneOwn : (term.relabel change).ownLetters = []) :
    TypedAlike change change term .truth where
  before := before
  after := after
  injective letter member := by cases member
  onOwn _ _ := rfl
  own := by rw [noneOwn, stillNoneOwn, List.map_nil]

section Both

variable {first second : Term} {firstType secondType : Ty} {onFirst onSecond : Char → Char}

/-- Where two terms share own letters only, one change does for the types of both. -/
theorem exists_common
    (distinct : StayDistinct change first second)
    (apart : Apart first second)
    (stillApart : Apart (first.relabel change) (second.relabel change))
    (ofFirst : TypedAlike change onFirst first firstType)
    (ofSecond : TypedAlike change onSecond second secondType) :
    ∃ onBoth,
      TypedAlike change onBoth first firstType ∧
        TypedAlike change onBoth second secondType ∧
        Set.InjOn onBoth (firstType.letterSet ∪ secondType.letterSet) := by
  rw [Apart, typeLetters_eq ofFirst.before, typeLetters_eq ofSecond.before] at apart
  have compatible :
      ∀ letter ∈ firstType.letterSet, ∀ other ∈ secondType.letterSet,
        onFirst letter = onSecond other ↔ letter = other := by
    intro letter inFirst other inSecond
    constructor
    · intro same
      -- A letter that both types have afterwards comes from own letters, which change alike.
      obtain ⟨firstOwn, secondOwn⟩ := stillApart (onFirst letter)
        (ofFirst.mem_typeLetters_iff.mpr ⟨letter, inFirst, rfl⟩)
        (ofSecond.mem_typeLetters_iff.mpr ⟨other, inSecond, same.symm⟩)
      have letterOwn := ofFirst.mem_ownLetters_of_after inFirst firstOwn
      have otherOwn := ofSecond.mem_ownLetters_of_after inSecond (same ▸ secondOwn)
      rw [ofFirst.onOwn letter letterOwn, ofSecond.onOwn other otherOwn] at same
      exact distinct letter letterOwn other otherOwn same
    · rintro rfl
      obtain ⟨firstOwn, secondOwn⟩ := apart letter inFirst inSecond
      rw [ofFirst.onOwn letter firstOwn, ofSecond.onOwn letter secondOwn]
  obtain ⟨onBoth, likeFirst, likeSecond, injective⟩ :=
    Ty.exists_common_change ofFirst.injective ofSecond.injective compatible
  exact ⟨onBoth, ofFirst.congr likeFirst, ofSecond.congr likeSecond, injective⟩

variable {alignment : Ty.Substitution} {onBoth : Char → Char}

/-- Types that can be aligned can be aligned after one change for both. -/
theorem exists_align
    (injective : Set.InjOn onBoth (firstType.letterSet ∪ secondType.letterSet))
    (aligned : firstType.align secondType = .ok alignment) :
    ∃ other,
      (firstType.relabel onBoth).align (secondType.relabel onBoth) = .ok other ∧
        other.apply (firstType.relabel onBoth) = (alignment.apply firstType).relabel onBoth := by
  obtain ⟨other, found, mirrors⟩ :=
    Ty.exists_align_relabel injective Set.subset_union_left Set.subset_union_right aligned
  exact ⟨other, found, mirrors.apply Set.subset_union_left⟩

theorem of_equal
    (injective : Set.InjOn onBoth (firstType.letterSet ∪ secondType.letterSet))
    (ofFirst : TypedAlike change onBoth first firstType)
    (ofSecond : TypedAlike change onBoth second secondType)
    (aligned : firstType.align secondType = .ok alignment) :
    TypedAlike change change (.equal first second) .truth := by
  obtain ⟨other, found, _⟩ := exists_align injective aligned
  have before : (equal first second).typeOf = .ok .truth :=
    typeOf_equal_eq_ok_iff.mpr
      ⟨⟨_, _, ofFirst.before, ofSecond.before, alignment, aligned⟩, rfl⟩
  have after : ((equal first second).relabel change).typeOf = .ok .truth :=
    typeOf_equal_eq_ok_iff.mpr ⟨⟨_, _, ofFirst.after, ofSecond.after, other, found⟩, rfl⟩
  exact .of_truth before after rfl rfl

theorem of_relate
    {relation : SetRelation}
    (injective : Set.InjOn onBoth (firstType.letterSet ∪ secondType.letterSet))
    (ofFirst : TypedAlike change onBoth first firstType)
    (ofSecond : TypedAlike change onBoth second secondType)
    (aligned : firstType.align secondType = .ok alignment)
    (areSets : (alignment.apply firstType).element?.isSome = true) :
    TypedAlike change change (.relate relation first second) .truth := by
  obtain ⟨other, found, common⟩ := exists_align injective aligned
  have stillSets : (other.apply (firstType.relabel onBoth)).element?.isSome = true := by
    rw [common, Ty.isSome_element?_relabel, areSets]
  have before : (relate relation first second).typeOf = .ok .truth :=
    typeOf_relate_eq_ok_iff.mpr
      ⟨⟨_, _, alignment, ofFirst.before, ofSecond.before, aligned, areSets⟩, rfl⟩
  have after : ((relate relation first second).relabel change).typeOf = .ok .truth :=
    typeOf_relate_eq_ok_iff.mpr
      ⟨⟨_, _, other, ofFirst.after, ofSecond.after, found, stillSets⟩, rfl⟩
  exact .of_truth before after rfl rfl

end Both

section Application

variable {function argument : Term} {domain range functionType argumentType : Ty}
  {onFunction onArgument onBoth : Char → Char} {alignment : Ty.Substitution}
  (distinct : StayDistinct change function argument)
  (separable : Separable function argument)
  (stillSeparable : Separable (function.relabel change) (argument.relabel change))

include distinct separable stillSeparable

/-- A change makes no own letter of an argument one of the function's type, and unmakes none. -/
theorem change_mem_typeLetters_iff
    (ofFunction : TypedAlike change onFunction function functionType)
    (ofArgument : TypedAlike change onArgument argument argumentType)
    (isOwn : letter ∈ argument.ownLetters) :
    change letter ∈ (function.relabel change).typeLetters ↔ letter ∈ function.typeLetters := by
  have stillOwn : change letter ∈ (argument.relabel change).ownLetters := by
    rw [ofArgument.own]
    exact List.mem_map_of_mem isOwn
  rw [typeLetters_eq ofFunction.before]
  constructor
  · intro inFunction
    have functionOwn := stillSeparable.1 _ inFunction stillOwn
    rw [ofFunction.own, List.mem_map] at functionOwn
    obtain ⟨source, sourceOwn, same⟩ := functionOwn
    rw [← distinct source sourceOwn letter isOwn same]
    exact mem_letters_of_mem_ownLetters ofFunction.before sourceOwn
  · intro inFunction
    have functionOwn := separable.1 letter (by rwa [typeLetters_eq ofFunction.before]) isOwn
    exact ofFunction.mem_typeLetters_iff.mpr
      ⟨letter, inFunction, ofFunction.onOwn letter functionOwn⟩

theorem lettersToApply_relabel
    (ofFunction : TypedAlike change onFunction function functionType)
    (ofArgument : TypedAlike change onArgument argument argumentType) :
    lettersToApply (function.relabel change) (argument.relabel change) =
      (lettersToApply function argument).map change := by
  rw [lettersToApply, lettersToApply, ofFunction.own, ofArgument.own, List.filter_map,
    List.map_append]
  refine congrArg _ (congrArg (List.map change) (List.filter_congr fun letter isOwn => ?_))
  rw [Function.comp_apply]
  exact decide_eq_decide.mpr (not_congr (change_mem_typeLetters_iff distinct separable
    stillSeparable ofFunction ofArgument isOwn))

/-- One change for a function and its argument kept apart changes own letters as the term does. -/
theorem changesApart_eq_change
    (ofFunction : TypedAlike change onFunction function functionType)
    (ofArgument : TypedAlike change onArgument argument argumentType)
    (changes : ChangesApart functionType argumentType onFunction onArgument onBoth)
    (isOwn : letter ∈ lettersToApply function argument) :
    onBoth letter = change letter ∧
      letter ∈ functionType.letterSet ∪ (argumentType.keptApart functionType).letterSet := by
  rcases List.mem_append.mp isOwn with functionOwn | argumentOwn
  · have inFunction := mem_letters_of_mem_ownLetters ofFunction.before functionOwn
    rw [changes.like inFunction, ofFunction.onOwn letter functionOwn]
    exact ⟨rfl, .inl inFunction⟩
  · obtain ⟨argumentOwn, notInFunction⟩ := List.mem_filter.mp argumentOwn
    have notShared : letter ∉ function.typeLetters := of_decide_eq_true notInFunction
    have stillNotShared := mt (change_mem_typeLetters_iff distinct separable stillSeparable
      ofFunction ofArgument argumentOwn).mp notShared
    rw [typeLetters_eq ofFunction.before] at notShared
    rw [typeLetters_eq ofFunction.after] at stillNotShared
    have inArgument := mem_letters_of_mem_ownLetters ofArgument.before argumentOwn
    have kept : argumentType.apartLetter functionType letter = letter :=
      Ty.apartLetter_eq_self fun shared => notShared (Ty.mem_sharedLetters.mp shared).2
    have stillKept :
        (argumentType.relabel onArgument).apartLetter (functionType.relabel onFunction)
            (change letter) =
          change letter :=
      Ty.apartLetter_eq_self fun shared => stillNotShared (Ty.mem_sharedLetters.mp shared).2
    have changed := changes.apart letter inArgument
    rw [kept, ofArgument.onOwn letter argumentOwn, stillKept] at changed
    exact ⟨changed, .inr (Ty.mem_letters_relabel.mpr ⟨letter, inArgument, kept⟩)⟩

theorem exists_app
    (ofFunction : TypedAlike change onFunction function (.fn domain range))
    (ofArgument : TypedAlike change onArgument argument argumentType)
    (aligned :
      domain.align ((argumentType.renameApart (.fn domain range)).apply argumentType) =
        .ok alignment) :
    ∃ onBoth, TypedAlike change onBoth (.app function argument) (alignment.apply range) := by
  obtain ⟨onBoth, changes⟩ := Ty.exists_changesApart ofFunction.injective ofArgument.injective
    (separable.2 _ _ ofFunction.before ofArgument.before)
    (stillSeparable.2 _ _ ofFunction.after ofArgument.after)
  obtain ⟨other, found, onRange, lettersKnown⟩ := changes.exists_align aligned
  have before : (app function argument).typeOf = .ok (alignment.apply range) :=
    typeOf_app_eq_ok_iff.mpr
      ⟨domain, range, argumentType, alignment, ofFunction.before, ofArgument.before, aligned, rfl⟩
  have after :
      ((app function argument).relabel change).typeOf =
        .ok ((alignment.apply range).relabel onBoth) :=
    typeOf_app_eq_ok_iff.mpr
      ⟨_, _, _, other, ofFunction.after, ofArgument.after, found, onRange⟩
  have own {letter : Char} (member : letter ∈ lettersToApply function argument) :=
    changesApart_eq_change distinct separable stillSeparable ofFunction ofArgument changes
      member
  refine ⟨onBoth, before, after, changes.injective.mono lettersKnown, fun letter member => ?_, ?_⟩
  · rw [ownLetters_app, List.mem_filter] at member
    exact (own member.1).1
  · rw [relabel_app, ownLetters_app, ownLetters_app,
      lettersToApply_relabel distinct separable stillSeparable ofFunction ofArgument,
      List.filter_map]
    refine congrArg (List.map change) (List.filter_congr fun letter member => ?_)
    obtain ⟨same, isKnown⟩ := own member
    rw [Function.comp_apply, ← relabel_app, typeLetters_eq before, typeLetters_eq after, ← same]
    exact decide_eq_decide.mpr
      (Ty.change_mem_letters_relabel_iff changes.injective isKnown lettersKnown)

end Application

/-- What can be a truth value still can be one. -/
theorem demandTruth
    (alike : TypedAlike change onType term ty)
    (truthful : ty.demandTruth = .ok ()) :
    ∃ other,
      (term.relabel change).typeOf = .ok other ∧ other.demandTruth = .ok () :=
  ⟨_, alike.after, Ty.demandTruth_relabel_iff.mpr truthful⟩

/-- A binder that does not abstract has the letters of its variable, or none. -/
theorem of_bind
    {binder : Binder}
    {bound : Identifier}
    {body : Term}
    {bodyType : Ty}
    (injective : Set.InjOn change known)
    (boundKnown : bound.ty.letterSet ⊆ known)
    (noAbstraction : binder ≠ .lambda)
    (ofBody : TypedAlike change onType body bodyType)
    (truthful : bodyType.demandTruth = .ok ()) :
    TypedAlike change change (.bind binder bound body)
      (if binder = .description then bound.ty else .truth) := by
  have before :
      (bind binder bound body).typeOf =
        .ok (if binder = .description then bound.ty else .truth) :=
    (typeOf_bind_eq_ok_iff noAbstraction).mpr ⟨⟨bodyType, ofBody.before, truthful⟩, rfl⟩
  have after :
      ((bind binder bound body).relabel change).typeOf =
        .ok (if binder = .description then bound.ty.relabel change else .truth) :=
    (typeOf_bind_eq_ok_iff noAbstraction).mpr ⟨ofBody.demandTruth truthful, rfl⟩
  cases binder with
  | lambda =>
      exact (noAbstraction rfl).elim
  | universal | existential =>
      exact .of_truth before after rfl rfl
  | description =>
      exact ⟨before, after, injective.mono boundKnown, fun _ _ => rfl,
        Ty.letters_relabel change bound.ty⟩

theorem exists_lambda
    {bound : Identifier}
    {body : Term}
    {range : Ty}
    (injective : Set.InjOn change known)
    (boundKnown : bound.ty.letterSet ⊆ known)
    (distinct : StayDistinct change (.var bound) body)
    (apart : Apart (.var bound) body)
    (stillApart : Apart ((var bound).relabel change) (body.relabel change))
    (ofBody : TypedAlike change onType body range) :
    ∃ onBoth, TypedAlike change onBoth (.bind .lambda bound body) (.fn bound.ty range) := by
  obtain ⟨onBoth, ofBound, ofBody, bothInjective⟩ :=
    exists_common distinct apart stillApart (of_identifier injective boundKnown).1 ofBody
  have boundAlike : bound.ty.relabel change = bound.ty.relabel onBoth :=
    Ty.relabel_congr fun letter inBound => (ofBound.onOwn letter inBound).symm
  have before : (bind .lambda bound body).typeOf = .ok (.fn bound.ty range) :=
    typeOf_lambda_eq_ok_iff.mpr ⟨range, ofBody.before, rfl⟩
  have after :
      ((bind .lambda bound body).relabel change).typeOf =
        .ok ((Ty.fn bound.ty range).relabel onBoth) :=
    typeOf_lambda_eq_ok_iff.mpr ⟨_, ofBody.after, by rw [boundAlike, Ty.relabel]⟩
  refine ⟨onBoth, before, after, ?_, ?_, ?_⟩
  · exact bothInjective.mono fun letter member => List.mem_append.mp member
  · exact fun letter member =>
      (List.mem_append.mp member).elim (ofBound.onOwn letter) (ofBody.onOwn letter)
  · change _ ++ (body.relabel change).ownLetters = List.map change (_ ++ body.ownLetters)
    rw [ofBody.own, Ty.letters_relabel, List.map_append]

theorem tuple_nil : TypedAlike change change (.tuple []) (.prod []) where
  before := rfl
  after := rfl
  injective letter member := by cases member
  onOwn _ _ := rfl
  own := rfl

theorem exists_tuple_cons
    {items : List Term}
    {factors : List Ty}
    {onItem onRest : Char → Char}
    (distinct : StayDistinct change term (.tuple items))
    (apart : Apart term (.tuple items))
    (stillApart : Apart (term.relabel change) ((tuple items).relabel change))
    (ofItem : TypedAlike change onItem term ty)
    (ofRest : TypedAlike change onRest (.tuple items) (.prod factors)) :
    ∃ onBoth, TypedAlike change onBoth (.tuple (term :: items)) (.prod (ty :: factors)) := by
  obtain ⟨onBoth, ofItem, ofRest, bothInjective⟩ :=
    exists_common distinct apart stillApart ofItem ofRest
  have before : (tuple (term :: items)).typeOf = .ok (.prod (ty :: factors)) :=
    typeOf_tuple_cons_eq_ok_iff.mpr ⟨ty, factors, ofItem.before, ofRest.before, rfl⟩
  have after :
      ((tuple (term :: items)).relabel change).typeOf =
        .ok ((Ty.prod (ty :: factors)).relabel onBoth) :=
    typeOf_tuple_cons_eq_ok_iff.mpr ⟨_, _, ofItem.after, ofRest.after, rfl⟩
  refine ⟨onBoth, before, after, ?_, ?_, ?_⟩
  · exact bothInjective.mono fun letter member => List.mem_append.mp member
  · exact fun letter member =>
      (List.mem_append.mp member).elim (ofItem.onOwn letter) (ofRest.onOwn letter)
  · change (term.relabel change).ownLetters ++ ((tuple items).relabel change).ownLetters =
      List.map change (term.ownLetters ++ (tuple items).ownLetters)
    rw [ofItem.own, ofRest.own, List.map_append]

end TypedAlike

/--
A hygienic term has a type that is the same up to letters when different
variables get different letters, if it is hygienic then too.
-/
theorem exists_typedAlike
    {change : Char → Char}
    {known : Set Char}
    {term : Term}
    {ty : Ty}
    (injective : Set.InjOn change known)
    (within : term.LettersWithin known)
    (hygienic : term.Hygienic)
    (stillHygienic : (term.relabel change).Hygienic)
    (typed : term.typeOf = .ok ty) :
    ∃ onType, TypedAlike change onType term ty := by
  -- The changes for the types of the parts fit together because the parts are apart before
  -- and after; an application takes new letters, and then only own letters change as before.
  induction term generalizing ty with
  | var identifier =>
      cases typed
      exact ⟨change, (TypedAlike.of_identifier injective (lettersWithin_var.mp within)).1⟩
  | const identifier =>
      cases typed
      exact ⟨change, (TypedAlike.of_identifier injective (lettersWithin_const.mp within)).2⟩
  | bind binder bound body inductionHypothesis =>
      obtain ⟨boundKnown, bodyWithin⟩ := lettersWithin_bind.mp within
      by_cases isAbstraction : binder = .lambda
      · subst isAbstraction
        obtain ⟨range, ofBody, rfl⟩ := typeOf_lambda_eq_ok_iff.mp typed
        obtain ⟨_, alike⟩ :=
          inductionHypothesis bodyWithin hygienic.2 stillHygienic.2 ofBody
        exact TypedAlike.exists_lambda injective boundKnown
          (.of_injOn injective (lettersWithin_var.mpr boundKnown) bodyWithin) hygienic.1
          stillHygienic.1 alike
      · obtain ⟨⟨inner, ofBody, truthful⟩, rfl⟩ := (typeOf_bind_eq_ok_iff isAbstraction).mp typed
        have inBody : body.Hygienic ∧ (body.relabel change).Hygienic := by
          cases binder with
          | lambda =>
              exact (isAbstraction rfl).elim
          | universal | existential | description =>
              exact ⟨hygienic, stillHygienic⟩
        obtain ⟨_, alike⟩ := inductionHypothesis bodyWithin inBody.1 inBody.2 ofBody
        exact ⟨_, .of_bind injective boundKnown isAbstraction alike truthful⟩
  | app function argument functionHypothesis argumentHypothesis =>
      obtain ⟨functionWithin, argumentWithin⟩ := lettersWithin_app.mp within
      obtain ⟨separable, ofFunction, ofArgument⟩ := hygienic
      obtain ⟨stillSeparable, stillFunction, stillArgument⟩ := stillHygienic
      obtain ⟨domain, range, argumentType, alignment, functionTyped, argumentTyped, aligned,
        rfl⟩ := typeOf_app_eq_ok_iff.mp typed
      obtain ⟨_, functionAlike⟩ :=
        functionHypothesis functionWithin ofFunction stillFunction functionTyped
      obtain ⟨_, argumentAlike⟩ :=
        argumentHypothesis argumentWithin ofArgument stillArgument argumentTyped
      exact TypedAlike.exists_app (.of_injOn injective functionWithin argumentWithin)
        separable stillSeparable functionAlike argumentAlike aligned
  | tuple items inductionHypothesis =>
      induction items generalizing ty with
      | nil =>
          cases typed
          exact ⟨change, .tuple_nil⟩
      | cons head tail tailHypothesis =>
          obtain ⟨headWithin, tailWithin⟩ := lettersWithin_tuple_cons.mp within
          obtain ⟨apart, ofHead, ofTail⟩ := hygienic
          obtain ⟨stillApart, stillHead, stillTail⟩ := stillHygienic
          obtain ⟨headType, factors, headTyped, tailTyped, rfl⟩ :=
            typeOf_tuple_cons_eq_ok_iff.mp typed
          obtain ⟨_, headAlike⟩ :=
            inductionHypothesis head (by simp) headWithin ofHead stillHead headTyped
          obtain ⟨_, tailAlike⟩ :=
            tailHypothesis (fun item isItem =>
              inductionHypothesis item (List.mem_cons_of_mem _ isItem))
              tailWithin ofTail stillTail tailTyped
          exact TypedAlike.exists_tuple_cons (.of_injOn injective headWithin tailWithin)
            apart stillApart headAlike tailAlike
  | neg operand inductionHypothesis =>
      obtain ⟨⟨inner, ofOperand, truthful⟩, rfl⟩ := typeOf_neg_eq_ok_iff.mp typed
      obtain ⟨_, alike⟩ := inductionHypothesis within hygienic stillHygienic ofOperand
      exact ⟨change, .of_truth typed
        (typeOf_neg_eq_ok_iff.mpr ⟨alike.demandTruth truthful, rfl⟩) rfl rfl⟩
  | connect connective left right leftHypothesis rightHypothesis =>
      obtain ⟨leftWithin, rightWithin⟩ := lettersWithin_connect.mp within
      obtain ⟨⟨_, leftTyped, leftTruthful⟩, ⟨_, rightTyped, rightTruthful⟩, rfl⟩ :=
        typeOf_connect_eq_ok_iff.mp typed
      obtain ⟨_, leftAlike⟩ :=
        leftHypothesis leftWithin hygienic.1 stillHygienic.1 leftTyped
      obtain ⟨_, rightAlike⟩ :=
        rightHypothesis rightWithin hygienic.2 stillHygienic.2 rightTyped
      exact ⟨change, .of_truth typed
        (typeOf_connect_eq_ok_iff.mpr
          ⟨leftAlike.demandTruth leftTruthful, rightAlike.demandTruth rightTruthful, rfl⟩)
        rfl rfl⟩
  | equal left right leftHypothesis rightHypothesis =>
      obtain ⟨leftWithin, rightWithin⟩ := lettersWithin_equal.mp within
      obtain ⟨apart, ofLeft, ofRight⟩ := hygienic
      obtain ⟨stillApart, stillLeft, stillRight⟩ := stillHygienic
      obtain ⟨⟨_, _, leftTyped, rightTyped, alignment, aligned⟩, rfl⟩ :=
        typeOf_equal_eq_ok_iff.mp typed
      obtain ⟨_, leftAlike⟩ := leftHypothesis leftWithin ofLeft stillLeft leftTyped
      obtain ⟨_, rightAlike⟩ := rightHypothesis rightWithin ofRight stillRight rightTyped
      obtain ⟨_, leftAlike, rightAlike, bothInjective⟩ :=
        leftAlike.exists_common (.of_injOn injective leftWithin rightWithin) apart stillApart
          rightAlike
      exact ⟨change, .of_equal bothInjective leftAlike rightAlike aligned⟩
  | relate relation left right leftHypothesis rightHypothesis =>
      obtain ⟨leftWithin, rightWithin⟩ := lettersWithin_relate.mp within
      obtain ⟨apart, ofLeft, ofRight⟩ := hygienic
      obtain ⟨stillApart, stillLeft, stillRight⟩ := stillHygienic
      obtain ⟨⟨_, _, alignment, leftTyped, rightTyped, aligned, areSets⟩, rfl⟩ :=
        typeOf_relate_eq_ok_iff.mp typed
      obtain ⟨_, leftAlike⟩ := leftHypothesis leftWithin ofLeft stillLeft leftTyped
      obtain ⟨_, rightAlike⟩ := rightHypothesis rightWithin ofRight stillRight rightTyped
      obtain ⟨_, leftAlike, rightAlike, bothInjective⟩ :=
        leftAlike.exists_common (.of_injOn injective leftWithin rightWithin) apart stillApart
          rightAlike
      exact ⟨change, .of_relate bothInjective leftAlike rightAlike aligned areSets⟩

end TypedLambda.Term
