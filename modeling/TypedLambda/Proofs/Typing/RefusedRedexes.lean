import TypedLambda.Proofs.Conversion.StepCases
import TypedLambda.Proofs.Typing.Variants

namespace TypedLambda

/-!
# Refused redexes

A redex has a type if the type of its argument, kept apart, fits the domain of
the abstraction. For its contraction the argument itself is kept apart, with
all of its identifiers, and then typed again. These are two questions. The new
letters are chosen with regard to the two types, and a letter that is in
neither of them may yet be in the argument, so that different variables become
one there. If that does not happen, and the argument is hygienic before and
after, then exactly those redexes are refused that have no type.
-/

namespace Redex

variable {redex : Redex} {functionType argumentType domain range : Ty}

/-- Contraction goes through if the argument kept apart has a type that fits the domain. -/
theorem exists_contract_iff :
    (∃ contraction, redex.contract = .ok contraction) ↔
      ∃ domain range argumentType,
        redex.function.typeOf = .ok (.fn domain range) ∧
          redex.argument.typeOf = .ok argumentType ∧
          ∃ apartType,
            (redex.apartArgument (.fn domain range) argumentType).typeOf = .ok apartType ∧
              ∃ alignment,
                domain.align ((apartType.renameApart (.fn domain range)).apply apartType) =
                  .ok alignment := by
  constructor
  · rintro ⟨contraction, contracted⟩
    obtain ⟨_, argumentType, apartType, _, alignment, ofFunction, ofArgument, ofApart, applied,
      _⟩ := contract_cases contracted
    obtain ⟨domain, range, rfl, aligned, _⟩ := Ty.applyTo_eq_ok_iff.mp applied
    exact ⟨domain, range, argumentType, ofFunction, ofArgument, apartType, ofApart, alignment,
      aligned⟩
  · rintro ⟨domain, range, argumentType, ofFunction, ofArgument, apartType, ofApart, alignment,
      aligned⟩
    exact exists_contract_eq_ok ofFunction ofArgument ofApart
      (Ty.applyTo_eq_ok_iff.mpr ⟨domain, range, rfl, aligned, rfl⟩)

/-- A redex has a type if the type of its argument, kept apart, fits the domain. -/
theorem exists_typeOf_toTerm_iff :
    (∃ ty, redex.toTerm.typeOf = .ok ty) ↔
      ∃ domain range argumentType,
        redex.function.typeOf = .ok (.fn domain range) ∧
          redex.argument.typeOf = .ok argumentType ∧
          ∃ alignment,
            domain.align ((argumentType.renameApart (.fn domain range)).apply argumentType) =
              .ok alignment := by
  simp only [toTerm, Term.typeOf_app_eq_ok_iff]
  grind

/-- Keeping the argument apart does no harm to it. -/
inductive SparesArgument (redex : Redex) (functionType argumentType : Ty) : Prop where
  /-- The argument stays as it is. -/
  | unchanged (same : redex.apartArgument functionType argumentType = redex.argument)
  /--
  Different variables of the argument get different letters, no new letter
  meets the same letter of anything else, and the letters do not run out.
  -/
  | renamed
      (injective : Set.InjOn (argumentType.apartLetter functionType) redex.argument.letterSet)
      (hygienic : redex.argument.Hygienic)
      (stillHygienic : (redex.apartArgument functionType argumentType).Hygienic)
      (suffice : argumentType.LettersSuffice functionType)
      (stillSuffice :
        ∀ apartType,
          (redex.apartArgument functionType argumentType).typeOf = .ok apartType →
            apartType.LettersSuffice functionType)

/-- To keep an argument apart is to change its letters. -/
theorem apartArgument_eq_relabel (redex : Redex) (functionType argumentType : Ty) :
    redex.apartArgument functionType argumentType =
      redex.argument.relabel (argumentType.apartLetter functionType) :=
  Term.instantiate_eq_relabel fun _ _ => Ty.apply_renameApart_var

/-- An argument that is spared fits when it is kept apart exactly if its type does. -/
theorem SparesArgument.exists_align_iff
    (spares : redex.SparesArgument (.fn domain range) argumentType)
    (ofArgument : redex.argument.typeOf = .ok argumentType) :
    (∃ apartType,
        (redex.apartArgument (.fn domain range) argumentType).typeOf = .ok apartType ∧
          ∃ alignment,
            domain.align ((apartType.renameApart (.fn domain range)).apply apartType) =
              .ok alignment) ↔
      ∃ alignment,
        domain.align ((argumentType.renameApart (.fn domain range)).apply argumentType) =
          .ok alignment := by
  cases spares with
  | unchanged same =>
      simp [same, ofArgument]
  | renamed injective hygienic stillHygienic suffice stillSuffice =>
      rw [apartArgument_eq_relabel] at stillHygienic stillSuffice ⊢
      obtain ⟨typed_iff, variants⟩ :=
        Term.typeOf_relabel_variant injective hygienic stillHygienic
      obtain ⟨apartType, ofApart⟩ := typed_iff.mpr ⟨argumentType, ofArgument⟩
      obtain ⟨change, changeInjective, rfl⟩ := variants _ _ ofArgument ofApart
      rw [← Ty.exists_align_apart_relabel_iff changeInjective suffice (stillSuffice _ ofApart)]
      simp [ofApart]

/-- If the argument is spared, a redex can be contracted exactly if it has a type. -/
theorem exists_contract_iff_exists_typeOf
    (spares :
      ∀ functionType argumentType,
        redex.function.typeOf = .ok functionType →
          redex.argument.typeOf = .ok argumentType →
            redex.SparesArgument functionType argumentType) :
    (∃ contraction, redex.contract = .ok contraction) ↔ ∃ ty, redex.toTerm.typeOf = .ok ty := by
  rw [exists_contract_iff, exists_typeOf_toTerm_iff]
  refine exists_congr fun domain => exists_congr fun range => exists_congr fun argumentType => ?_
  refine and_congr_right fun ofFunction => and_congr_right fun ofArgument => ?_
  exact (spares _ _ ofFunction ofArgument).exists_align_iff ofArgument

end Redex

namespace Term

/-- There is a step if the leftmost redex can be contracted. -/
theorem exists_step?_iff
    {term : Term}
    {place : PlacedRedex}
    (found : term.leftmostRedex? = some place) :
    (∃ step, term.step? = .ok step) ↔
      ∃ contraction, place.redex.contract = .ok contraction := by
  simp only [step?, found, Outcome.bind_eq_ok_iff, Outcome.pure_eq_ok_iff]
  grind

/--
A step is refused exactly if the leftmost redex has no type, provided that the
argument of this redex is spared when it is kept apart from the abstraction.
-/
theorem step?_error_iff
    {term : Term}
    {place : PlacedRedex}
    (found : term.leftmostRedex? = some place)
    (spares :
      ∀ functionType argumentType,
        place.redex.function.typeOf = .ok functionType →
          place.redex.argument.typeOf = .ok argumentType →
            place.redex.SparesArgument functionType argumentType) :
    (∃ reason, term.step? = .error reason) ↔
      ∃ reason, place.redex.toTerm.typeOf = .error reason := by
  rw [Outcome.exists_eq_error_iff, Outcome.exists_eq_error_iff, exists_step?_iff found,
    Redex.exists_contract_iff_exists_typeOf spares]

/-- The description ιx.x = h, with a variable for the type of x and one in the type of h. -/
def described (letter other : Char) : Term :=
  .bind .description ⟨"x", .var letter⟩
    (.equal (.var ⟨"x", .var letter⟩) (.const ⟨"h", .fn (.var other) .entity⟩))

theorem typeOf_described
    {letter other : Char}
    (different : letter ≠ other) :
    (described letter other).typeOf = .ok (.var letter) := by
  have aligned :
      ∃ alignment, (Ty.var letter).align (.fn (.var other) .entity) = .ok alignment := by
    simp [Ty.align, Ty.unify, Ty.letters, Ty.entity, different, Ty.Equations.instantiate]
  have inBody :
      (equal (.var ⟨"x", .var letter⟩) (.const ⟨"h", .fn (.var other) .entity⟩)).typeOf =
        .ok .truth :=
    typeOf_equal_eq_ok_iff.mpr ⟨⟨_, _, rfl, rfl, aligned⟩, rfl⟩
  exact (typeOf_bind_eq_ok_iff (by decide)).mpr
    ⟨⟨.truth, inBody, Ty.demandTruth_eq_ok_iff.mpr Ty.truth_aligns_truth⟩, rfl⟩

theorem hygienic_described
    {letter other : Char}
    (different : letter ≠ other) :
    (described letter other).Hygienic := by
  refine ⟨fun name inVariable inConstant => ?_, trivial, trivial⟩
  cases List.mem_singleton.mp inVariable
  cases List.mem_singleton.mp inConstant
  exact (different rfl).elim

/-- The identity λy.y on the type 'a, applied to ιx.x = h. -/
def identityOfDescribed (other : Char) : Redex :=
  ⟨⟨"y", .var 'a'⟩, .var ⟨"y", .var 'a'⟩, described 'a' other⟩

/-- Next to the identity on 'a the letter 'a becomes 'b, and other letters stay. -/
theorem apartLetter_identity {other : Char} (different : 'a' ≠ other) :
    (Ty.var 'a').apartLetter (.fn (.var 'a') (.var 'a')) 'a' = 'b' ∧
      (Ty.var 'a').apartLetter (.fn (.var 'a') (.var 'a')) other = other := by
  refine ⟨by decide +kernel, Ty.apartLetter_eq_self fun shared => ?_⟩
  simp [Ty.mem_sharedLetters, Ty.letters, different.symm] at shared

/-- To keep the description apart from the identity is to give x the type 'b. -/
theorem apartArgument_identityOfDescribed {other : Char} (different : 'a' ≠ other) :
    (identityOfDescribed other).apartArgument (.fn (.var 'a') (.var 'a')) (.var 'a') =
      described 'b' other := by
  obtain ⟨isNew, kept⟩ := apartLetter_identity different
  rw [Redex.apartArgument_eq_relabel]
  simp [identityOfDescribed, described, relabel, mapTypes, Ty.relabel, isNew, kept, Ty.entity]

/-- The redex has the type 'b, whatever letter there is in the type of h. -/
theorem typeOf_identityOfDescribed {other : Char} (different : 'a' ≠ other) :
    (identityOfDescribed other).toTerm.typeOf = .ok (.var 'b') :=
  typeOf_app_identity rfl (typeOf_described different)

/-- The argument is spared if x does not get the letter in the type of h. -/
theorem sparesArgument_identityOfDescribed
    {other : Char}
    (different : 'a' ≠ other)
    (stillDifferent : 'b' ≠ other) :
    (identityOfDescribed other).SparesArgument (.fn (.var 'a') (.var 'a')) (.var 'a') := by
  have isApart := apartArgument_identityOfDescribed different
  have within :
      ∀ letter ∈ (described 'a' other).letterSet, letter = 'a' ∨ letter = other := by
    simp [letterSet, letters, described, identifiers, Ty.letters, Ty.entity]
  obtain ⟨isNew, kept⟩ := apartLetter_identity different
  refine .renamed ?_ (hygienic_described different) ?_ (lettersSuffice_identity 'a') ?_
  · intro first firstMember second secondMember same
    rcases within first firstMember with rfl | rfl <;>
      rcases within second secondMember with rfl | rfl <;> simp_all
  · rw [isApart]
    exact hygienic_described stillDifferent
  · intro apartType ofApart
    rw [isApart, typeOf_described stillDifferent] at ofApart
    cases ofApart
    exact .of_disjoint (by simp [Ty.letters])

/-- With 'c in the type of h the argument is spared, and the redex is contracted. -/
theorem step?_error_iff_identityOfDescribed :
    (identityOfDescribed 'c').toTerm.leftmostRedex? = some ⟨[], identityOfDescribed 'c'⟩ ∧
      (identityOfDescribed 'c').SparesArgument (.fn (.var 'a') (.var 'a')) (.var 'a') ∧
      (identityOfDescribed 'c').toTerm.typeOf = .ok (.var 'b') ∧
      ¬∃ reason, (identityOfDescribed 'c').toTerm.step? = .error reason := by
  have different : 'a' ≠ 'c' := by decide
  have spares := sparesArgument_identityOfDescribed different (by decide)
  have typed := typeOf_identityOfDescribed different
  have found :
      (identityOfDescribed 'c').toTerm.leftmostRedex? = some ⟨[], identityOfDescribed 'c'⟩ :=
    rfl
  have sparesTypes (functionType argumentType : Ty)
      (ofFunction : (identityOfDescribed 'c').function.typeOf = .ok functionType)
      (ofArgument : (identityOfDescribed 'c').argument.typeOf = .ok argumentType) :
      (identityOfDescribed 'c').SparesArgument functionType argumentType := by
    cases ofFunction
    cases (typeOf_described different).symm.trans ofArgument
    exact spares
  refine ⟨found, spares, typed, ?_⟩
  rw [step?_error_iff found sparesTypes, Outcome.exists_eq_error_iff, not_not]
  exact ⟨_, typed⟩

/-- With 'b in the type of h, as the letter is new to the two types, x would have it as well. -/
theorem exists_typed_redex_refused :
    ∃ (term : Term) (place : PlacedRedex),
      term.leftmostRedex? = some place ∧
        place.redex.toTerm.typeOf = .ok (.var 'b') ∧
        ∃ reason, term.step? = .error reason := by
  have different : 'a' ≠ 'b' := by decide
  have found :
      (identityOfDescribed 'b').toTerm.leftmostRedex? = some ⟨[], identityOfDescribed 'b'⟩ :=
    rfl
  have refused : ¬∃ contraction, (identityOfDescribed 'b').contract = .ok contraction := by
    rw [Redex.exists_contract_iff]
    rintro ⟨_, _, _, ⟨⟩, ofArgument, apartType, ofApart, _⟩
    cases (typeOf_described different).symm.trans ofArgument
    have isApart := apartArgument_identityOfDescribed different
    obtain ⟨⟨_, ofEquation, _⟩, _⟩ :=
      (typeOf_bind_eq_ok_iff (by decide)).mp (isApart ▸ ofApart)
    obtain ⟨⟨_, _, ⟨⟩, ⟨⟩, alignment, aligned⟩, _⟩ := typeOf_equal_eq_ok_iff.mp ofEquation
    simp [Ty.align, Ty.unify, Ty.letters] at aligned
  exact ⟨_, _, found, typeOf_identityOfDescribed different,
    Outcome.exists_eq_error_iff.mpr (mt (exists_step?_iff found).mp refused)⟩

end Term

end TypedLambda
