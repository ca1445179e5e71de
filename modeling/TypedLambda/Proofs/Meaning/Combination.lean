import TypedLambda.Meaning.SyntaxTree
import TypedLambda.Proofs.Ty.Truth
import TypedLambda.Proofs.Typing.SameType

namespace TypedLambda

/-!
# The types of combined meanings

Where one sister is applied to the other, the meaning has a type. Where two
sets are intersected, it is only known of each range by itself that it can be
that of truth values. A range that is a variable of the domain may have become
another type when the domains were aligned, and then the intersection has no
type. Otherwise it has one. A tree hands these meanings up.
-/

namespace Ty

/-- A function accepts an argument if its domain can be aligned with the argument's type. -/
theorem accepts_iff {function argument : Ty} :
    function.accepts argument = true ↔
      ∃ domain range alignment,
        function = .fn domain range ∧
          domain.align ((argument.renameApart function).apply argument) = .ok alignment := by
  cases function with
  | fn domain range =>
      simp only [accepts, aligns_iff, fn.injEq]
      grind
  | _ =>
      simp [accepts]

theorem element?_eq_some_iff {ty element : Ty} :
    ty.element? = some element ↔
      ∃ range, ty = .fn element range ∧ truth.aligns range = true := by
  cases ty with
  | fn domain range =>
      simp only [element?, Option.ite_none_right_eq_some, Option.some.injEq, fn.injEq]
      grind
  | _ =>
      simp [element?]

/-- Two types of sets have elements in common if their domains can be aligned. -/
theorem commonElement?_eq_some_iff {left right element : Ty} :
    left.commonElement? right = some element ↔
      ∃ leftDomain leftRange rightDomain rightRange alignment,
        left = .fn leftDomain leftRange ∧
          right = .fn rightDomain rightRange ∧
          truth.aligns leftRange = true ∧
          truth.aligns rightRange = true ∧
          leftDomain.align rightDomain = .ok alignment ∧
          alignment.apply leftDomain = element := by
  constructor
  · intro found
    unfold commonElement? at found
    split at found
    · next leftElement rightElement ofLeft ofRight =>
        obtain ⟨leftRange, rfl, leftTruthful⟩ := element?_eq_some_iff.mp ofLeft
        obtain ⟨rightRange, rfl, rightTruthful⟩ := element?_eq_some_iff.mp ofRight
        split at found
        · next alignment aligned =>
            exact ⟨_, _, _, _, alignment, rfl, rfl, leftTruthful, rightTruthful, aligned,
              Option.some.inj found⟩
        · cases found
    · cases found
  · rintro ⟨_, _, _, _, alignment, rfl, rfl, leftTruthful, rightTruthful, aligned, rfl⟩
    simp [commonElement?, element?, leftTruthful, rightTruthful, aligned]

/-- When their domains are aligned, the ranges of both types still can be that of truth values. -/
def Intersectable (left right : Ty) : Prop :=
  ∃ leftDomain leftRange rightDomain rightRange alignment,
    left = .fn leftDomain leftRange ∧
      right = .fn rightDomain rightRange ∧
      leftDomain.align rightDomain = .ok alignment ∧
      KeepsTruth alignment leftDomain leftRange ∧
      KeepsTruth alignment rightDomain rightRange

end Ty

namespace Term

/-- What may become of two sisters. -/
theorem combine_cases
    {left right : Term}
    {meaning : Meaning}
    (combined : left.combine right = .ok meaning) :
    ∃ leftType rightType,
      left.typeOf = .ok leftType ∧
        right.typeOf = .ok rightType ∧
        (leftType.accepts rightType = true ∧
            meaning = ⟨.functionApplication, .app left right⟩ ∨
          leftType.accepts rightType = false ∧
            rightType.accepts leftType = true ∧
            meaning = ⟨.functionApplication, .app right left⟩ ∨
          leftType.accepts rightType = false ∧
            rightType.accepts leftType = false ∧
            ∃ element,
              leftType.commonElement? rightType = some element ∧
                meaning = ⟨.predicateModification, intersection element left right⟩) := by
  simp only [combine, Outcome.bind_eq_ok_iff, Outcome.mapError_eq_ok_iff] at combined
  obtain ⟨leftType, ofLeft, rightType, ofRight, decided⟩ := combined
  refine ⟨leftType, rightType, ofLeft, ofRight, ?_⟩
  split at decided
  · next accepts =>
      rw [Outcome.pure_eq_ok_iff] at decided
      exact .inl ⟨accepts, decided.symm⟩
  · next refuses =>
      rw [Bool.not_eq_true] at refuses
      split at decided
      · next accepts =>
          rw [Outcome.pure_eq_ok_iff] at decided
          exact .inr (.inl ⟨refuses, accepts, decided.symm⟩)
      · next refusesToo =>
          rw [Bool.not_eq_true] at refusesToo
          split at decided
          · next element found =>
              rw [Outcome.pure_eq_ok_iff] at decided
              exact .inr (.inr ⟨refuses, refusesToo, element, found, decided.symm⟩)
          · cases decided

/-- A function applied to an argument that it accepts has a type. -/
theorem exists_typeOf_app
    {function argument : Term}
    {functionType argumentType : Ty}
    (ofFunction : function.typeOf = .ok functionType)
    (ofArgument : argument.typeOf = .ok argumentType)
    (accepts : functionType.accepts argumentType = true) :
    ∃ ty, (app function argument).typeOf = .ok ty := by
  obtain ⟨domain, range, alignment, rfl, aligned⟩ := Ty.accepts_iff.mp accepts
  exact ⟨_, typeOf_app_eq_ok_iff.mpr ⟨_, _, _, _, ofFunction, ofArgument, aligned, rfl⟩⟩

/-- That something of the common type is in a set can be true if the range keeps that. -/
theorem exists_typeOf_member_iff
    {set : Term}
    {name : String}
    {substitution : Ty.Substitution}
    {domain range image : Ty}
    (ofSet : set.typeOf = .ok (.fn domain range))
    (truthful : Ty.truth.aligns range = true)
    (idempotent : substitution.Absorbs substitution)
    (isImage : image = substitution.apply domain) :
    (∃ ty, (app set (.var ⟨name, image⟩)).typeOf = .ok ty ∧ ty.demandTruth = .ok ()) ↔
      Ty.KeepsTruth substitution domain range := by
  obtain ⟨alignment, aligned, keeps_iff⟩ :=
    Ty.exists_align_instance_truth idempotent isImage truthful
  have applied (ty : Ty) :
      (app set (.var ⟨name, image⟩)).typeOf = .ok ty ↔ alignment.apply range = ty := by
    have ofVariable : (var ⟨name, image⟩).typeOf = .ok image := rfl
    simp only [typeOf_app_eq_ok_iff, ofSet, ofVariable, Except.ok.injEq, Ty.fn.injEq]
    constructor
    · rintro ⟨_, _, _, found, ⟨rfl, rfl⟩, rfl, isFound, rfl⟩
      rw [aligned, Except.ok.injEq] at isFound
      rw [isFound]
    · rintro rfl
      exact ⟨_, _, _, alignment, ⟨rfl, rfl⟩, rfl, aligned, rfl⟩
  simp only [applied, exists_eq_left', Ty.demandTruth_eq_ok_iff, keeps_iff]

/-- An intersection has a type if both ranges keep that they can be that of truth values. -/
theorem exists_typeOf_intersection_iff
    {left right : Term}
    {leftDomain leftRange rightDomain rightRange : Ty}
    {alignment : Ty.Substitution}
    (ofLeft : left.typeOf = .ok (.fn leftDomain leftRange))
    (ofRight : right.typeOf = .ok (.fn rightDomain rightRange))
    (leftTruthful : Ty.truth.aligns leftRange = true)
    (rightTruthful : Ty.truth.aligns rightRange = true)
    (aligned : leftDomain.align rightDomain = .ok alignment) :
    (∃ ty, (intersection (alignment.apply leftDomain) left right).typeOf = .ok ty) ↔
      Ty.KeepsTruth alignment leftDomain leftRange ∧
        Ty.KeepsTruth alignment rightDomain rightRange := by
  obtain ⟨idempotent, solvedBy_iff⟩ := Ty.apply_eq_iff_absorbs_alignment aligned
  have sameDomain := (solvedBy_iff alignment).mpr idempotent
  simp only [intersection, typeOf_lambda_eq_ok_iff, typeOf_connect_eq_ok_iff,
    exists_typeOf_member_iff ofLeft leftTruthful idempotent rfl,
    exists_typeOf_member_iff ofRight rightTruthful idempotent sameDomain]
  grind

/-- If neither sister can be applied to the other one, their types are those of sets that meet. -/
def Compatible (left right : Term) : Prop :=
  ∀ leftType rightType : Ty,
    left.typeOf = .ok leftType →
      right.typeOf = .ok rightType →
        leftType.accepts rightType = false →
          rightType.accepts leftType = false →
            leftType.Intersectable rightType

/-- The meaning of two sisters has a type exactly if they are compatible. -/
theorem exists_typeOf_combine_iff
    {left right : Term}
    {meaning : Meaning}
    (combined : left.combine right = .ok meaning) :
    (∃ ty, meaning.term.typeOf = .ok ty) ↔ left.Compatible right := by
  obtain ⟨leftType, rightType, ofLeft, ofRight, decided⟩ := combine_cases combined
  have compatible_iff :
      left.Compatible right ↔
        (leftType.accepts rightType = false →
          rightType.accepts leftType = false → leftType.Intersectable rightType) := by
    simp [Compatible, ofLeft, ofRight]
  rw [compatible_iff]
  rcases decided with ⟨accepts, rfl⟩ | ⟨_, accepts, rfl⟩ | ⟨refuses, refusesToo, intersected⟩
  · simp [exists_typeOf_app ofLeft ofRight accepts, accepts]
  · simp [exists_typeOf_app ofRight ofLeft accepts, accepts]
  · obtain ⟨_, found, rfl⟩ := intersected
    obtain ⟨_, _, _, _, alignment, rfl, rfl, leftTruthful, rightTruthful, aligned, rfl⟩ :=
      Ty.commonElement?_eq_some_iff.mp found
    rw [exists_typeOf_intersection_iff ofLeft ofRight leftTruthful rightTruthful aligned]
    simp only [refuses, refusesToo, forall_const, Ty.Intersectable, Ty.fn.injEq]
    constructor
    · rintro ⟨leftKeeps, rightKeeps⟩
      exact ⟨_, _, _, _, alignment, ⟨rfl, rfl⟩, ⟨rfl, rfl⟩, aligned, leftKeeps, rightKeeps⟩
    · rintro ⟨_, _, _, _, other, ⟨rfl, rfl⟩, ⟨rfl, rfl⟩, alsoAligned, leftKeeps, rightKeeps⟩
      rw [aligned, Except.ok.injEq] at alsoAligned
      subst alsoAligned
      exact ⟨leftKeeps, rightKeeps⟩

end Term

namespace SyntaxTree

/-- The meanings of the topmost sisters in a tree. -/
def topSisters? : SyntaxTree → Option (Term × Term)
  | .leaf _ => none
  | .branch [only] => only.topSisters?
  | .branch [left, right] =>
      match left.interpret, right.interpret with
      | .ok leftMeaning, .ok rightMeaning => some (leftMeaning.term, rightMeaning.term)
      | _, _ => none
  | .branch _ => none
termination_by structural tree => tree

/-- The meaning of a tree has a type exactly if the topmost sisters are compatible. -/
theorem exists_typeOf_interpret_iff
    {tree : SyntaxTree}
    {meaning : Meaning}
    (interpreted : tree.interpret = .ok meaning) :
    (∃ ty, meaning.term.typeOf = .ok ty) ↔
      ∀ left right, tree.topSisters? = some (left, right) → left.Compatible right := by
  fun_induction interpret tree generalizing meaning with
  | case1 term ty typed =>
      cases interpreted
      simp [topSisters?, typed]
  | case2 term reason untyped =>
      cases interpreted
  | case3 only inductionHypothesis =>
      obtain ⟨inner, found, same⟩ := Outcome.bind_eq_ok_iff.mp interpreted
      cases same
      rw [inductionHypothesis found, topSisters?]
  | case4 left right _ _ =>
      obtain ⟨leftMeaning, ofLeft, combined⟩ := Outcome.bind_eq_ok_iff.mp interpreted
      obtain ⟨rightMeaning, ofRight, combined⟩ := Outcome.bind_eq_ok_iff.mp combined
      simp [topSisters?, ofLeft, ofRight, Term.exists_typeOf_combine_iff combined]
  | case5 =>
      cases interpreted

/--
When a meaning has a type. The meaning of two sisters has one if one of the
sisters can be applied to the other, or if both ranges still can be that of
truth values when the domains have been aligned. The meaning of a tree has one
if this holds of the topmost sisters.
-/
theorem typeOf_meaning_iff
    (left right : Term)
    (tree : SyntaxTree)
    (meaning : Meaning) :
    (left.combine right = .ok meaning →
        ((∃ ty, meaning.term.typeOf = .ok ty) ↔ left.Compatible right)) ∧
      (tree.interpret = .ok meaning →
        ((∃ ty, meaning.term.typeOf = .ok ty) ↔
          ∀ left right, tree.topSisters? = some (left, right) → left.Compatible right)) :=
  ⟨Term.exists_typeOf_combine_iff, exists_typeOf_interpret_iff⟩

/-- The type of sets of pairs of something and an entity, with the given range. -/
def polymorphicPairs (range : Ty) : Ty :=
  .fn (.prod [.var 'a', .entity]) range

/-- The type of sets of pairs of entities. -/
def entityPairs : Ty :=
  .predicate (.prod [.entity, .entity])

/-- To align the pairs is to replace 'a by the type of entities. -/
theorem align_pairs :
    (Ty.prod [.var 'a', .entity]).align (.prod [.entity, .entity]) =
      .ok (.single 'a' .entity) := by
  simp only [Ty.align, Ty.unify, Ty.entity, List.length_cons, List.zip_cons_cons,
    List.zip_nil_right, List.append_nil, reduceCtorEq, ↓reduceIte, Ty.letters, List.not_mem_nil,
    Ty.Equations.instantiate, List.map_cons, List.map_nil, Ty.Substitution.apply]
  rfl

/-- A set of pairs cannot be applied to another one. -/
theorem accepts_pairs_eq_false
    {factors others : List Ty}
    {range otherRange : Ty} :
    (Ty.fn (.prod factors) range).accepts (.fn (.prod others) otherRange) = false :=
  Ty.aligns_eq_false_of_head?_ne rfl (Ty.head?_apply rfl _) (by simp)

/-- The pairs in both sets are those of entities. -/
theorem combine_pairs
    {range : Ty}
    (truthful : Ty.truth.aligns range = true) :
    (Term.const ⟨"f", polymorphicPairs range⟩).combine (.const ⟨"P", entityPairs⟩) =
      .ok ⟨.predicateModification,
        .intersection (.prod [.entity, .entity])
          (.const ⟨"f", polymorphicPairs range⟩) (.const ⟨"P", entityPairs⟩)⟩ := by
  have common :
      (polymorphicPairs range).commonElement? entityPairs =
        some (.prod [.entity, .entity]) :=
    Ty.commonElement?_eq_some_iff.mpr
      ⟨_, _, _, _, _, rfl, rfl, truthful, Ty.truth_aligns_truth, align_pairs, rfl⟩
  have refuses : (polymorphicPairs range).accepts entityPairs = false :=
    accepts_pairs_eq_false
  have refusesToo : entityPairs.accepts (polymorphicPairs range) = false :=
    accepts_pairs_eq_false
  simp [Term.combine, Term.typeOf, Outcome.bind_eq_ok_iff, refuses, refusesToo, common]

/-- The sisters f, of the type <'a×e,t>, and P, of the type <e×e,t>, as a tree. -/
def pairsTree : SyntaxTree :=
  branch [leaf (.const ⟨"f", polymorphicPairs .truth⟩),
    branch [leaf (.const ⟨"P", entityPairs⟩)]]

/-- Their intersection has a type, in the tree as well. -/
theorem typeOf_meaning_iff_truthfulPairs :
    ∃ meaning,
      (Term.const ⟨"f", polymorphicPairs .truth⟩).combine (.const ⟨"P", entityPairs⟩) =
        .ok meaning ∧
        pairsTree.interpret = .ok meaning ∧
        (∃ ty, meaning.term.typeOf = .ok ty) ∧
        ∀ left right, pairsTree.topSisters? = some (left, right) → left.Compatible right := by
  have combined := combine_pairs Ty.truth_aligns_truth
  have interpreted :
      pairsTree.interpret =
        (Term.const ⟨"f", polymorphicPairs .truth⟩).combine (.const ⟨"P", entityPairs⟩) :=
    rfl
  have compatible :
      (Term.const ⟨"f", polymorphicPairs .truth⟩).Compatible (.const ⟨"P", entityPairs⟩) := by
    rintro _ _ ⟨⟩ ⟨⟩ _ _
    have keeps : Ty.KeepsTruth (.single 'a' .entity) (.prod [.var 'a', .entity]) .truth :=
      .inl (by simp [Ty.truth, Ty.letters])
    exact ⟨_, _, _, _, _, rfl, rfl, align_pairs, keeps, .inl (by simp [Ty.truth, Ty.letters])⟩
  obtain ⟨ofSisters, ofTree⟩ := typeOf_meaning_iff _ _ pairsTree _
  have typed := (ofSisters combined).mpr compatible
  exact ⟨_, combined, interpreted.trans combined, typed,
    (ofTree (interpreted.trans combined)).mp typed⟩

/-- Where f has the type <'a×e,'a> instead, the intersection has none. -/
theorem exists_combine_not_typed :
    ∃ meaning,
      (Term.const ⟨"f", polymorphicPairs (.var 'a')⟩).combine (.const ⟨"P", entityPairs⟩) =
        .ok meaning ∧
        ∀ ty, meaning.term.typeOf ≠ .ok ty := by
  have combined := combine_pairs (Ty.truth_aligns_var 'a')
  refine ⟨_, combined, fun ty typed => ?_⟩
  have compatible := (Term.exists_typeOf_combine_iff combined).mp ⟨ty, typed⟩
  obtain ⟨_, _, _, _, alignment, ⟨⟩, ⟨⟩, aligned, leftKeeps, _⟩ :=
    compatible _ _ rfl rfl accepts_pairs_eq_false accepts_pairs_eq_false
  rw [align_pairs, Except.ok.injEq] at aligned
  subst aligned
  rcases leftKeeps with apart | truthful
  · exact apart 'a' (by decide) (by decide)
  · have isTruth := Ty.truth_aligns_iff.mp truthful (.atom 'e') rfl
    cases isTruth

end SyntaxTree

end TypedLambda
