import TypedLambda.Proofs.Meaning.Manner
import TypedLambda.Proofs.Typing.Variants

namespace TypedLambda

/-!
# Sisters and the letters that they share

An argument is kept apart from its function, so whether one sister can be
applied to the other is a question of what instances their types have, each by
a substitution of its own. Two sets are intersected without being kept apart:
their domains are aligned as they stand, and a letter that they share counts as
one variable. Where they share none, the rule by which two sisters are combined
is again decided by the instances of their types, and the letters do not
matter.
-/

namespace Ty

section Disjoint

variable {left right : Ty}

/-- Types without a letter in common can be aligned if they have an instance in common. -/
theorem exists_align_iff_overlap (disjoint : ∀ letter ∈ left.letters, letter ∉ right.letters) :
    (∃ alignment, left.align right = .ok alignment) ↔ left.Overlap right := by
  have notInFunction : ∀ letter ∈ right.letters, letter ∉ (fn left .truth).letters := by
    intro letter inRight inFunction
    have inLeft : letter ∈ left.letters := by simpa [letters, truth] using inFunction
    exact disjoint letter inLeft inRight
  have kept : (right.renameApart (.fn left .truth)).apply right = right := by
    have unchanged : right.relabel (right.apartLetter (.fn left .truth)) = right.relabel id :=
      relabel_congr fun letter _ =>
        apartLetter_eq_self (by simp [sharedLetters_eq_nil notInFunction])
    rw [apply_renameApart, unchanged, relabel_id]
  rw [← exists_align_apart_iff (.of_disjoint notInFunction), kept]

end Disjoint

/-- An instance of a function type can be applied to an instance of another type. -/
def Applicable (function argument : Ty) : Prop :=
  ∃ domain range, function = .fn domain range ∧ domain.Overlap argument

/-- Two types are those of sets, and the types of their elements have an instance in common. -/
def Meet (left right : Ty) : Prop :=
  ∃ leftDomain leftRange rightDomain rightRange,
    left = .fn leftDomain leftRange ∧
      right = .fn rightDomain rightRange ∧
      truth.aligns leftRange = true ∧
      truth.aligns rightRange = true ∧
      leftDomain.Overlap rightDomain

/-- The rule that two types call for, whatever letters they have. -/
def CallFor (left right : Ty) : Rule → Prop
  | .functionApplication => left.Applicable right ∨ right.Applicable left
  | .predicateModification =>
      ¬left.Applicable right ∧ ¬right.Applicable left ∧ left.Meet right
  | .nonBranching => False

theorem applicable_fn_iff {domain range argument : Ty} :
    (fn domain range).Applicable argument ↔ domain.Overlap argument := by
  simp only [Applicable, fn.injEq]
  grind

section Relabel

variable {left right : Ty} {change : Char → Char} (injective : Set.InjOn change right.letterSet)

include injective

theorem applicable_relabel_argument_iff :
    left.Applicable (right.relabel change) ↔ left.Applicable right := by
  simp only [Applicable, Overlap.relabel_iff injective]

theorem applicable_relabel_function_iff :
    (right.relabel change).Applicable left ↔ right.Applicable left := by
  cases right with
  | fn domain range =>
      have onDomain : Set.InjOn change domain.letterSet :=
        injective.mono (letterSet_fn_subset_iff.mp subset_rfl).1
      rw [relabel, applicable_fn_iff, applicable_fn_iff, Overlap.relabel_left_iff onDomain]
  | _ =>
      simp [Applicable, relabel]

theorem meet_relabel_iff : left.Meet (right.relabel change) ↔ left.Meet right := by
  cases right with
  | fn domain range =>
      have onDomain : Set.InjOn change domain.letterSet :=
        injective.mono (letterSet_fn_subset_iff.mp subset_rfl).1
      simp only [Meet, relabel, fn.injEq]
      constructor
      · rintro ⟨_, _, _, _, isLeft, ⟨rfl, rfl⟩, leftTruthful, rightTruthful, overlap⟩
        rw [truth_aligns_relabel] at rightTruthful
        exact ⟨_, _, _, _, isLeft, ⟨rfl, rfl⟩, leftTruthful, rightTruthful,
          (Overlap.relabel_iff onDomain).mp overlap⟩
      · rintro ⟨_, _, _, _, isLeft, ⟨rfl, rfl⟩, leftTruthful, rightTruthful, overlap⟩
        exact ⟨_, _, _, _, isLeft, ⟨rfl, rfl⟩, leftTruthful,
          by rwa [truth_aligns_relabel], (Overlap.relabel_iff onDomain).mpr overlap⟩
  | _ =>
      simp [Meet, relabel]

/-- Other letters do not make the types call for another rule. -/
theorem callFor_relabel_iff {rule : Rule} :
    left.CallFor (right.relabel change) rule ↔ left.CallFor right rule := by
  cases rule <;>
    simp only [CallFor, applicable_relabel_argument_iff injective,
      applicable_relabel_function_iff injective, meet_relabel_iff injective]

end Relabel

/--
The letters of two types do not get in each other's way. There are enough of
them to keep each type apart from the other one, and if neither can be applied
to the other one, their domains have no letter in common.
-/
structure Independent (left right : Ty) : Prop where
  leftSuffice : left.LettersSuffice right
  rightSuffice : right.LettersSuffice left
  disjoint :
    ∀ leftDomain leftRange rightDomain rightRange,
      left = .fn leftDomain leftRange →
        right = .fn rightDomain rightRange →
          ¬left.Applicable right →
            ¬right.Applicable left →
              ∀ letter ∈ leftDomain.letters, letter ∉ rightDomain.letters

/-- With enough letters, a function accepts what an instance of it can be applied to. -/
theorem accepts_iff_applicable
    {function argument : Ty}
    (suffice : argument.LettersSuffice function) :
    function.accepts argument = true ↔ function.Applicable argument := by
  cases function with
  | fn domain range =>
      rw [applicable_fn_iff, ← exists_align_apart_iff suffice, accepts_iff]
      simp only [fn.injEq]
      grind
  | _ =>
      simp [accepts, Applicable]

namespace Independent

variable {left right : Ty}

theorem commonElement?_iff
    (independent : left.Independent right)
    (notApplied : ¬left.Applicable right)
    (notAppliedToo : ¬right.Applicable left) :
    (∃ element, left.commonElement? right = some element) ↔ left.Meet right := by
  simp only [commonElement?_eq_some_iff]
  constructor
  · rintro ⟨_, leftDomain, leftRange, rightDomain, rightRange, alignment, rfl, rfl,
      leftTruthful, rightTruthful, aligned, _⟩
    have disjoint := independent.disjoint _ _ _ _ rfl rfl notApplied notAppliedToo
    exact ⟨_, _, _, _, rfl, rfl, leftTruthful, rightTruthful,
      (exists_align_iff_overlap disjoint).mp ⟨alignment, aligned⟩⟩
  · rintro ⟨leftDomain, leftRange, rightDomain, rightRange, rfl, rfl, leftTruthful,
      rightTruthful, overlap⟩
    have disjoint := independent.disjoint _ _ _ _ rfl rfl notApplied notAppliedToo
    obtain ⟨alignment, aligned⟩ := (exists_align_iff_overlap disjoint).mpr overlap
    exact ⟨_, _, _, _, _, alignment, rfl, rfl, leftTruthful, rightTruthful, aligned, rfl⟩

/-- The manner in which independent types are combined falls under the rule that they call for. -/
theorem exists_manner_iff
    (independent : left.Independent right)
    {rule : Rule} :
    (∃ manner, left.manner? right = some manner ∧ manner.rule = rule) ↔
      left.CallFor right rule := by
  unfold manner?
  by_cases applied : left.Applicable right
  · rw [if_pos ((accepts_iff_applicable independent.rightSuffice).mpr applied)]
    cases rule <;> simp [CallFor, applied, Manner.rule]
  · rw [if_neg (mt (accepts_iff_applicable independent.rightSuffice).mp applied)]
    by_cases appliedToo : right.Applicable left
    · rw [if_pos ((accepts_iff_applicable independent.leftSuffice).mpr appliedToo)]
      cases rule <;> simp [CallFor, appliedToo, Manner.rule]
    · rw [if_neg (mt (accepts_iff_applicable independent.leftSuffice).mp appliedToo)]
      simp only [Option.map_eq_some_iff, exists_exists_and_eq_and, Manner.rule]
      cases rule with
      | predicateModification =>
          simpa [CallFor, applied, appliedToo] using
            independent.commonElement?_iff applied appliedToo
      | functionApplication | nonBranching =>
          simp [CallFor, applied, appliedToo]

end Independent

end Ty

namespace Term

/-- The types of two sisters do not get in each other's way. -/
def Independent (left right : Term) : Prop :=
  ∀ leftType rightType,
    left.typeOf = .ok leftType →
      right.typeOf = .ok rightType → leftType.Independent rightType

/-- Independent sisters are combined by the rule that their types call for. -/
theorem exists_combine_iff
    {left right : Term}
    {rule : Rule}
    (independent : left.Independent right) :
    (∃ term, left.combine right = .ok ⟨rule, term⟩) ↔
      ∃ leftType rightType,
        left.typeOf = .ok leftType ∧
          right.typeOf = .ok rightType ∧
          leftType.CallFor rightType rule := by
  constructor
  · rintro ⟨term, combined⟩
    obtain ⟨leftType, rightType, manner, ofLeft, ofRight, decided, same⟩ :=
      combine_eq_ok_iff.mp combined
    have isRule : manner.rule = rule := congrArg Meaning.rule same
    exact ⟨leftType, rightType, ofLeft, ofRight,
      (independent _ _ ofLeft ofRight).exists_manner_iff.mp ⟨manner, decided, isRule⟩⟩
  · rintro ⟨leftType, rightType, ofLeft, ofRight, called⟩
    obtain ⟨manner, decided, rfl⟩ :=
      (independent _ _ ofLeft ofRight).exists_manner_iff.mpr called
    exact ⟨manner.term left right,
      combine_eq_ok_iff.mpr ⟨leftType, rightType, manner, ofLeft, ofRight, decided, rfl⟩⟩

/--
The type variables of two sisters are independent: if those of the right one
are renamed, whether or not to letters of the left one, the sisters are combined
exactly if they were before, and by the same rule. No new letter may meet the
same letter of anything else in the right sister, and the types must not get in
each other's way, before or after the renaming.
-/
theorem combine_instantiate_iff
    {left right : Term}
    {substitution : Ty.Substitution}
    (renames : substitution.Renames right.letterSet)
    (hygienic : right.Hygienic)
    (stillHygienic : (right.instantiate substitution).Hygienic)
    (independent : left.Independent right)
    (stillIndependent : left.Independent (right.instantiate substitution))
    (rule : Rule) :
    (∃ term, left.combine (right.instantiate substitution) = .ok ⟨rule, term⟩) ↔
      ∃ term, left.combine right = .ok ⟨rule, term⟩ := by
  obtain ⟨change, injective, changes⟩ := renames
  rw [exists_combine_iff independent, exists_combine_iff stillIndependent]
  rw [instantiate_eq_relabel changes] at stillHygienic ⊢
  obtain ⟨typed_iff, variants⟩ := typeOf_relabel_variant injective hygienic stillHygienic
  refine exists_congr fun leftType => ?_
  constructor
  · rintro ⟨after, ofLeft, typedAfter, called⟩
    obtain ⟨before, typed⟩ := typed_iff.mp ⟨after, typedAfter⟩
    obtain ⟨onType, onTypeInjective, rfl⟩ := variants before after typed typedAfter
    exact ⟨before, ofLeft, typed, (Ty.callFor_relabel_iff onTypeInjective).mp called⟩
  · rintro ⟨before, ofLeft, typed, called⟩
    obtain ⟨after, typedAfter⟩ := typed_iff.mpr ⟨before, typed⟩
    obtain ⟨onType, onTypeInjective, rfl⟩ := variants before after typed typedAfter
    exact ⟨_, ofLeft, typedAfter, (Ty.callFor_relabel_iff onTypeInjective).mpr called⟩

/-- A set of pairs of something and an entity. -/
def pairSet (name : String) (first : Ty) : Term :=
  .const ⟨name, .predicate (.prod [first, .entity])⟩

/-- A set of pairs whose first components are functions to entities. -/
def functionPairSet (letter : Char) : Term :=
  pairSet "Q" (.fn (.var letter) .entity)

section Pairs

variable {letter : Char}

theorem not_applicable_pairs {first other : Ty} :
    ¬(Ty.predicate (.prod [first, .entity])).Applicable (.predicate (.prod [other, .entity])) := by
  rw [Ty.predicate, Ty.applicable_fn_iff]
  rintro ⟨onLeft, onRight, same⟩
  simp [Ty.predicate, Ty.Substitution.apply] at same

theorem callFor_functionPairs :
    (Ty.predicate (.prod [.var 'a', .entity])).CallFor
      (.predicate (.prod [.fn (.var letter) .entity, .entity])) .predicateModification :=
  ⟨not_applicable_pairs, not_applicable_pairs, _, _, _, _, rfl, rfl, Ty.truth_aligns_truth,
    Ty.truth_aligns_truth, .single 'a' (.fn (.var letter) .entity), .empty, by
      simp [Ty.Substitution.apply, Ty.Substitution.applyAll, Ty.entity]⟩

/-- Two sets of pairs are independent if the second one does not have the letter of the first. -/
theorem independent_functionPairSet (different : 'a' ≠ letter) :
    (pairSet "P" (.var 'a')).Independent (functionPairSet letter) := by
  rintro _ _ ⟨⟩ ⟨⟩
  have disjoint : ∀ other ∈ (Ty.predicate (.prod [.var 'a', .entity])).letters,
      other ∉ (Ty.predicate (.prod [.fn (.var letter) .entity, .entity])).letters := by
    simpa [Ty.predicate, Ty.letters, Ty.lettersOfAll, Ty.entity, Ty.truth] using different
  refine ⟨.of_disjoint disjoint, .of_disjoint fun other inSecond inFirst =>
    disjoint other inFirst inSecond, ?_⟩
  rintro _ _ _ _ ⟨⟩ ⟨⟩ _ _ other inFirst inSecond
  exact disjoint other (List.mem_append_left _ inFirst) (List.mem_append_left _ inSecond)

/-- They are intersected then. -/
theorem exists_combine_functionPairSet (different : 'a' ≠ letter) :
    ∃ term,
      (pairSet "P" (.var 'a')).combine (functionPairSet letter) =
        .ok ⟨.predicateModification, term⟩ :=
  (exists_combine_iff (independent_functionPairSet different)).mpr
    ⟨_, _, rfl, rfl, callFor_functionPairs⟩

end Pairs

/-- The renaming of a letter in the second set. -/
theorem renames_functionPairSet (letter other : Char) :
    (Ty.Substitution.single letter (.var other)).Renames (functionPairSet letter).letterSet := by
  have within : ∀ name ∈ (functionPairSet letter).letterSet, name = letter := by
    simp [letterSet, letters, functionPairSet, pairSet, identifiers, Ty.predicate, Ty.letters,
      Ty.lettersOfAll, Ty.entity, Ty.truth]
  refine ⟨fun _ => other, fun first firstMember second secondMember _ => ?_, fun name member => ?_⟩
  · rw [within first firstMember, within second secondMember]
  · simp [within name member, Ty.Substitution.apply]

theorem instantiate_functionPairSet (letter other : Char) :
    (functionPairSet letter).instantiate (.single letter (.var other)) = functionPairSet other := by
  simp [functionPairSet, pairSet, instantiate, Identifier.instantiate, Ty.predicate,
    Ty.Substitution.apply, Ty.Substitution.applyAll, Ty.entity, Ty.truth]

/-- With 'c for 'b in <<'b,e>×e,t> the sets are intersected as before. -/
theorem combine_instantiate_iff_functionPairSet :
    (Ty.Substitution.single 'b' (.var 'c')).Renames (functionPairSet 'b').letterSet ∧
      (functionPairSet 'b').Hygienic ∧
      ((functionPairSet 'b').instantiate (.single 'b' (.var 'c'))).Hygienic ∧
      (pairSet "P" (.var 'a')).Independent (functionPairSet 'b') ∧
      (pairSet "P" (.var 'a')).Independent
        ((functionPairSet 'b').instantiate (.single 'b' (.var 'c'))) ∧
      ∃ term,
        (pairSet "P" (.var 'a')).combine
            ((functionPairSet 'b').instantiate (.single 'b' (.var 'c'))) =
          .ok ⟨.predicateModification, term⟩ := by
  have renames := renames_functionPairSet 'b' 'c'
  have hygienic (letter : Char) : (functionPairSet letter).Hygienic := trivial
  have stillHygienic :
      ((functionPairSet 'b').instantiate (.single 'b' (.var 'c'))).Hygienic := by
    rw [instantiate_functionPairSet]
    exact hygienic 'c'
  have independent := independent_functionPairSet (show 'a' ≠ 'b' by decide)
  have stillIndependent :
      (pairSet "P" (.var 'a')).Independent
        ((functionPairSet 'b').instantiate (.single 'b' (.var 'c'))) := by
    rw [instantiate_functionPairSet]
    exact independent_functionPairSet (by decide)
  exact ⟨renames, hygienic 'b', stillHygienic, independent, stillIndependent,
    (combine_instantiate_iff renames (hygienic 'b') stillHygienic independent stillIndependent
      _).mpr (exists_combine_functionPairSet (by decide))⟩

/-- With the letter of the first set in the second no rule applies, and with another one it does. -/
theorem exists_combine_renamed_only :
    ∃ (left right : Term) (substitution : Ty.Substitution) (ty : Ty) (reason : CompositionError),
      substitution.Renames right.letterSet ∧
        (right.instantiate substitution).typeOf = .ok ty ∧
        (∃ term,
          left.combine (right.instantiate substitution) = .ok ⟨.predicateModification, term⟩) ∧
        left.combine right = .error reason := by
  have refused :
      ¬∃ meaning, (pairSet "P" (.var 'a')).combine (functionPairSet 'a') = .ok meaning := by
    rintro ⟨meaning, combined⟩
    obtain ⟨_, _, ⟨⟩, ⟨⟩, decided⟩ := combine_cases combined
    rcases decided with ⟨accepts, _⟩ | ⟨_, accepts, _⟩ | ⟨_, _, _, found, _⟩
    · exact absurd accepts (Bool.eq_false_iff.mp SyntaxTree.accepts_pairs_eq_false)
    · exact absurd accepts (Bool.eq_false_iff.mp SyntaxTree.accepts_pairs_eq_false)
    · obtain ⟨_, _, _, _, alignment, ⟨⟩, ⟨⟩, _, _, aligned, _⟩ :=
        Ty.commonElement?_eq_some_iff.mp found
      simp [Ty.align, Ty.unify, Ty.letters] at aligned
  obtain ⟨reason, failed⟩ := Outcome.exists_eq_error_iff.mpr refused
  refine ⟨_, functionPairSet 'a', .single 'a' (.var 'b'), _, reason,
    renames_functionPairSet 'a' 'b', rfl, ?_, failed⟩
  rw [instantiate_functionPairSet]
  exact exists_combine_functionPairSet (by decide)

end Term

end TypedLambda
