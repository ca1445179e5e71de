import TypedLambda.Proofs.Typing.Relabelling

namespace TypedLambda

/-!
# Types do not depend on letters

A change of letters by which different variables stay different can be undone,
so what it does to hygienic terms it does in both directions: a term has a type
before exactly if it has one after. Hygiene is needed on both sides. The
letters that a renaming gives to the variables of a term may be those that an
application takes as new ones, and a new letter that stood beside another
variable by accident may be apart from it after a renaming.
-/

namespace Term

/-- The letters of a term as a set. -/
def letterSet (term : Term) : Set Char :=
  {letter | letter ∈ term.letters}

section Relabel

variable {change other : Char → Char} {known : Set Char} {term : Term}

theorem lettersWithin_letterSet (term : Term) : term.LettersWithin term.letterSet :=
  fun _ mentioned _ member => mem_letters mentioned member

/-- A substitution that gives every variable another letter changes the letters. -/
theorem instantiate_eq_relabel
    {substitution : Ty.Substitution}
    (changes :
      ∀ letter ∈ term.letters, substitution.apply (.var letter) = .var (change letter)) :
    term.instantiate substitution = term.relabel change := by
  rw [instantiate_eq_mapTypes, relabel]
  exact mapTypes_congr fun identifier mentioned =>
    Ty.apply_eq_relabel fun letter member => changes letter (mem_letters mentioned member)

/-- The letters after a change are images of those before. -/
theorem LettersWithin.relabel (within : term.LettersWithin known) :
    (term.relabel change).LettersWithin (change '' known) := by
  intro identifier mentioned letter member
  rw [Term.relabel, identifiers_mapTypes, List.mem_map] at mentioned
  obtain ⟨source, isSource, rfl⟩ := mentioned
  obtain ⟨letter, inSource, rfl⟩ := Ty.mem_letters_relabel.mp member
  exact ⟨letter, within source isSource inSource, rfl⟩

/-- A change by which different letters stay different can be undone. -/
theorem relabel_invFunOn
    (injective : Set.InjOn change known)
    (within : term.LettersWithin known) :
    (term.relabel change).relabel (Function.invFunOn change known) = term := by
  have undone :
      term.mapTypes (Ty.relabel (Function.invFunOn change known) ∘ Ty.relabel change) =
        term.mapTypes id :=
    mapTypes_congr fun identifier mentioned =>
      Ty.relabel_invFunOn injective (within identifier mentioned)
  rw [relabel, relabel, mapTypes_mapTypes, undone, mapTypes_id]

/--
A term has a type exactly if it has one with other letters, if it is hygienic
with both, and the types are the same up to letters.
-/
theorem typeOf_relabel_variant
    (injective : Set.InjOn change term.letterSet)
    (hygienic : term.Hygienic)
    (stillHygienic : (term.relabel change).Hygienic) :
    ((∃ ty, (term.relabel change).typeOf = .ok ty) ↔ ∃ ty, term.typeOf = .ok ty) ∧
      ∀ before after,
        term.typeOf = .ok before →
          (term.relabel change).typeOf = .ok after → before.Variant after := by
  have within := lettersWithin_letterSet term
  have undone := relabel_invFunOn injective within
  refine ⟨⟨?_, ?_⟩, ?_⟩
  · rintro ⟨after, typed⟩
    obtain ⟨_, alike⟩ := exists_typedAlike (Function.invFunOn_injOn_image change _) within.relabel
      stillHygienic (undone.symm ▸ hygienic) typed
    have typedBefore := alike.after
    rw [undone] at typedBefore
    exact ⟨_, typedBefore⟩
  · rintro ⟨before, typed⟩
    obtain ⟨_, alike⟩ := exists_typedAlike injective within hygienic stillHygienic typed
    exact ⟨_, alike.after⟩
  · intro before after typedBefore typedAfter
    obtain ⟨onType, alike⟩ :=
      exists_typedAlike injective within hygienic stillHygienic typedBefore
    have same := Except.ok.inj (alike.after.symm.trans typedAfter)
    exact ⟨onType, alike.injective, same⟩

end Relabel

end Term

/-- A substitution gives letters other letters, and different ones to different ones. -/
def Ty.Substitution.Renames (substitution : Substitution) (known : Set Char) : Prop :=
  ∃ change : Char → Char,
    Set.InjOn change known ∧
      ∀ letter ∈ known, substitution.apply (.var letter) = .var (change letter)

namespace Term

/--
Which letters stand for its type variables does not matter to the type of a
term, if no new letter meets the same letter of anything else, be it before or
after the renaming. The term then has a type exactly if the renamed one has,
and the types are the same up to letters.
-/
theorem typeOf_instantiate_variant
    {substitution : Ty.Substitution}
    {term : Term}
    (renames : substitution.Renames term.letterSet)
    (hygienic : term.Hygienic)
    (stillHygienic : (term.instantiate substitution).Hygienic) :
    ((∃ ty, (term.instantiate substitution).typeOf = .ok ty) ↔
        ∃ ty, term.typeOf = .ok ty) ∧
      ∀ before after,
        term.typeOf = .ok before →
          (term.instantiate substitution).typeOf = .ok after → before.Variant after := by
  obtain ⟨change, injective, changes⟩ := renames
  rw [instantiate_eq_relabel changes] at stillHygienic ⊢
  exact typeOf_relabel_variant injective hygienic stillHygienic

/-- The letter that a variable gets in the argument of an identity. -/
def letterInArgument (letter : Char) : Char :=
  (Ty.var letter).apartLetter (.fn (.var letter) (.var letter)) letter

theorem lettersSuffice_identity (letter : Char) :
    (Ty.var letter).LettersSuffice (.fn (.var letter) (.var letter)) := by
  have oneShared :
      ((Ty.var letter).sharedLetters (.fn (.var letter) (.var letter))).length ≤ 1 :=
    List.length_filter_le _ _
  have someUnused :
      ∃ new, new ∈ (Ty.var letter).unusedLetters (.fn (.var letter) (.var letter)) := by
    simp only [Ty.unusedLetters, Ty.letters, List.mem_filter]
    by_cases same : letter = 'a'
    · exact ⟨'b', by decide, by simp [same]⟩
    · exact ⟨'a', by decide, by simp [Ne.symm same]⟩
  obtain ⟨_, unused⟩ := someUnused
  exact oneShared.trans (List.length_pos_of_mem unused)

theorem letterInArgument_ne (letter : Char) : letterInArgument letter ≠ letter := by
  have member : letter ∈ (Ty.var letter).letters := List.mem_singleton.mpr rfl
  have notShared := Ty.apartLetter_notMem (lettersSuffice_identity letter) member
  exact fun same => notShared (List.mem_append_left _ (List.mem_singleton.mpr same))

/-- An identity yields a variable with the letter that the argument's variable has got. -/
theorem typeOf_app_identity
    {function argument : Term}
    {letter : Char}
    (ofFunction : function.typeOf = .ok (.fn (.var letter) (.var letter)))
    (ofArgument : argument.typeOf = .ok (.var letter)) :
    (app function argument).typeOf = .ok (.var (letterInArgument letter)) := by
  have different := letterInArgument_ne letter
  have aligned :
      ∃ alignment,
        (Ty.var letter).align (.var (letterInArgument letter)) = .ok alignment ∧
          alignment.apply (.var letter) = .var (letterInArgument letter) := by
    simp [Ty.align, Ty.unify, Ty.letters, different, different.symm, Ty.Equations.instantiate,
      Ty.Substitution.apply, Ty.Substitution.get?_compose]
  obtain ⟨alignment, aligned, onLetter⟩ := aligned
  refine typeOf_app_eq_ok_iff.mpr
    ⟨.var letter, .var letter, .var letter, alignment, ofFunction, ofArgument, ?_, onLetter⟩
  rw [Ty.apply_renameApart, Ty.relabel, ← letterInArgument, aligned]

/-- The identity applied to a constant, with the same variable in the types of both. -/
def identityApplied (letter : Char) : Term :=
  .app (.const ⟨"f", .fn (.var letter) (.var letter)⟩) (.const ⟨"c", .var letter⟩)

/-- The function λx.(f(c),x), where f is the identity. -/
def identityBelowBinder (letter bound : Char) : Term :=
  .bind .lambda ⟨"x", .var bound⟩
    (.tuple [identityApplied letter, .var ⟨"x", .var bound⟩])

section IdentityBelowBinder

variable {letter bound : Char}

theorem typeOf_identityApplied :
    (identityApplied letter).typeOf = .ok (.var (letterInArgument letter)) :=
  typeOf_app_identity rfl rfl

theorem typeOf_identityBelowBinder :
    (identityBelowBinder letter bound).typeOf =
      .ok (.fn (.var bound) (.prod [.var (letterInArgument letter), .var bound])) :=
  typeOf_lambda_eq_ok_iff.mpr
    ⟨_, typeOf_tuple_cons_eq_ok_iff.mpr ⟨_, _, typeOf_identityApplied, rfl, rfl⟩, rfl⟩

/-- The new letter in the type of the application must not be that of the bound variable. -/
theorem hygienic_identityBelowBinder (apart : bound ≠ letterInArgument letter) :
    (identityBelowBinder letter bound).Hygienic := by
  have separable :
      Separable (.const ⟨"f", .fn (.var letter) (.var letter)⟩) (.const ⟨"c", .var letter⟩) := by
    refine ⟨fun _ _ isOwn => List.mem_append_left _ isOwn, ?_⟩
    rintro _ _ ⟨⟩ ⟨⟩
    exact lettersSuffice_identity letter
  refine ⟨fun _ inBound _ => ⟨inBound, ?_⟩, fun other isNew inRest => ?_,
    ⟨separable, trivial, trivial⟩, fun _ _ inNothing => ?_, trivial, trivial⟩
  · exact List.mem_append_right _ (List.mem_append_left _ inBound)
  · rw [typeLetters_eq typeOf_identityApplied] at isNew
    have isBound := List.mem_singleton.mp inRest
    exact (apart (isBound.symm.trans (List.mem_singleton.mp isNew))).elim
  · cases inNothing

end IdentityBelowBinder

/-- The renaming of 'a to 'b and of 'c to 'd. -/
def nextLetters : Ty.Substitution :=
  .ofList [('a', .var 'b'), ('c', .var 'd')]

/--
The application in λx.(f(c),x) has a new variable in its type, which is 'b if f
and c have 'a, and 'a if they have 'b.
-/
theorem typeOf_instantiate_variant_identityBelowBinder :
    nextLetters.Renames (identityBelowBinder 'a' 'c').letterSet ∧
      (identityBelowBinder 'a' 'c').Hygienic ∧
      ((identityBelowBinder 'a' 'c').instantiate nextLetters).Hygienic ∧
      ∃ after,
        ((identityBelowBinder 'a' 'c').instantiate nextLetters).typeOf = .ok after ∧
          (Ty.fn (.var 'c') (.prod [.var 'b', .var 'c'])).Variant after := by
  have renamed :
      (identityBelowBinder 'a' 'c').instantiate nextLetters = identityBelowBinder 'b' 'd' :=
    rfl
  have within : ∀ letter ∈ (identityBelowBinder 'a' 'c').letterSet, letter = 'a' ∨ letter = 'c' := by
    simp [letterSet, letters, identityBelowBinder, identityApplied, identifiers, Ty.letters]
  have renames : nextLetters.Renames (identityBelowBinder 'a' 'c').letterSet := by
    refine ⟨fun letter => if letter = 'a' then 'b' else 'd', ?_, fun letter member => ?_⟩
    · intro first firstMember second secondMember same
      rcases within first firstMember with rfl | rfl <;>
        rcases within second secondMember with rfl | rfl <;> simp_all
    · rcases within letter member with rfl | rfl <;> rfl
  have hygienic : (identityBelowBinder 'a' 'c').Hygienic :=
    hygienic_identityBelowBinder (by decide +kernel)
  have stillHygienic : ((identityBelowBinder 'a' 'c').instantiate nextLetters).Hygienic := by
    rw [renamed]
    exact hygienic_identityBelowBinder (by decide +kernel)
  have typed :
      (identityBelowBinder 'a' 'c').typeOf =
        .ok (.fn (.var 'c') (.prod [.var 'b', .var 'c'])) :=
    typeOf_identityBelowBinder
  obtain ⟨typed_iff, variants⟩ := typeOf_instantiate_variant renames hygienic stillHygienic
  obtain ⟨after, typedAfter⟩ := typed_iff.mpr ⟨_, typed⟩
  exact ⟨renames, hygienic, stillHygienic, after, typedAfter, variants _ _ typed typedAfter⟩

/-- The set g applied to the pair (f(c),x), where f is the identity. -/
def pairWithIdentity (other : Char) : Term :=
  .app (.const ⟨"g", .predicate (.prod [.entity, .truth])⟩)
    (.tuple [identityApplied 'a', .const ⟨"x", .var other⟩])

/--
Beside a variable 'b the new letter 'b of an application makes a pair ill-typed
that has a type if the other variable is renamed to 'c.
-/
theorem exists_renames_typed_only :
    ∃ (term : Term) (substitution : Ty.Substitution),
      substitution.Renames term.letterSet ∧
        (term.instantiate substitution).typeOf = .ok .truth ∧
        ¬∃ ty, term.typeOf = .ok ty := by
  have typed (other : Char) :
      (tuple [identityApplied 'a', .const ⟨"x", .var other⟩]).typeOf =
        .ok (.prod [.var 'b', .var other]) :=
    typeOf_tuple_cons_eq_ok_iff.mpr
      ⟨_, _, typeOf_identityApplied, rfl, rfl⟩
  have within : ∀ letter ∈ (pairWithIdentity 'b').letterSet, letter = 'a' ∨ letter = 'b' := by
    simp [letterSet, letters, pairWithIdentity, identityApplied, identifiers, Ty.letters,
      Ty.lettersOfAll, Ty.predicate, Ty.entity, Ty.truth]
  refine ⟨pairWithIdentity 'b', .single 'b' (.var 'c'), ?_, ?_, ?_⟩
  · refine ⟨fun letter => if letter = 'b' then 'c' else letter, ?_, fun letter member => ?_⟩
    · intro first firstMember second secondMember same
      rcases within first firstMember with rfl | rfl <;>
        rcases within second secondMember with rfl | rfl <;> simp_all
    · rcases within letter member with rfl | rfl <;> rfl
  · have renamed :
        (pairWithIdentity 'b').instantiate (.single 'b' (.var 'c')) = pairWithIdentity 'c' :=
      rfl
    have aligned :
        ∃ alignment,
          (Ty.prod [.entity, .truth]).align (.prod [.var 'b', .var 'c']) = .ok alignment := by
      simp [Ty.align, Ty.unify, Ty.entity, Ty.truth, Ty.letters, Ty.Equations.instantiate,
        Ty.Substitution.apply]
    obtain ⟨alignment, aligned⟩ := aligned
    rw [renamed]
    exact typeOf_app_eq_ok_iff.mpr
      ⟨_, _, _, alignment, rfl, typed 'c', aligned, rfl⟩
  · rintro ⟨ty, found⟩
    obtain ⟨_, _, _, alignment, ⟨⟩, ofPair, aligned, _⟩ := typeOf_app_eq_ok_iff.mp found
    cases (typed 'b').symm.trans ofPair
    obtain ⟨unifier, same⟩ := Ty.exists_align_eq_ok_iff.mp ⟨alignment, aligned⟩
    rw [Ty.apply_renameApart] at same
    simp only [Ty.relabel, Ty.relabelAll, Ty.Substitution.apply, Ty.Substitution.applyAll,
      Ty.prod.injEq, List.cons.injEq] at same
    cases same.1.trans same.2.1.symm

end Term

end TypedLambda
