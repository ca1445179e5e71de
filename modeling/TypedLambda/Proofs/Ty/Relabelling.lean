import Mathlib.Data.Set.Piecewise
import TypedLambda.Proofs.Ty.RenameApart
import TypedLambda.Proofs.Ty.Truth

namespace TypedLambda.Ty

/-!
# Other letters for type variables

Unification looks at type variables only to find out whether two of them are
the same. If different variables get different letters, it therefore does to
the changed types what it did to the types before, letter for letter: it
succeeds on both or on neither, and the substitutions that it finds mirror each
other. The letters of the result are so determined exactly, and not only up to
another choice among the most general unifiers.
-/

mutual

/-- The type with other letters for its variables. -/
def relabel (change : Char → Char) : Ty → Ty
  | .atom letter => .atom letter
  | .var letter => .var (change letter)
  | .fn domain range => .fn (domain.relabel change) (range.relabel change)
  | .prod factors => .prod (relabelAll change factors)

/-- Every type of a list with other letters for its variables. -/
def relabelAll (change : Char → Char) : List Ty → List Ty
  | [] => []
  | ty :: rest => ty.relabel change :: relabelAll change rest

end

/-- The letters of a type as a set. -/
def letterSet (ty : Ty) : Set Char :=
  {letter | letter ∈ ty.letters}

section LetterSet

variable {known : Set Char}

@[simp] theorem mem_letterSet
    {ty : Ty}
    {letter : Char} :
    letter ∈ ty.letterSet ↔ letter ∈ ty.letters :=
  Iff.rfl

@[simp] theorem letterSet_var_subset_iff {letter : Char} :
    (var letter).letterSet ⊆ known ↔ letter ∈ known := by
  simp [Set.subset_def, letters]

@[simp] theorem letterSet_fn_subset_iff {domain range : Ty} :
    (fn domain range).letterSet ⊆ known ↔
      domain.letterSet ⊆ known ∧ range.letterSet ⊆ known := by
  simp only [Set.subset_def, mem_letterSet, letters, List.mem_append]
  grind

theorem letterSet_prod_subset_iff {factors : List Ty} :
    (prod factors).letterSet ⊆ known ↔ ∀ factor ∈ factors, factor.letterSet ⊆ known := by
  simp only [Set.subset_def, mem_letterSet, mem_letters_prod]
  grind

end LetterSet

/-- Two changes of letters that take the same letters for the same ones can be made as one. -/
theorem exists_common_change
    {first second : Char → Char}
    {left right : Set Char}
    (onLeft : Set.InjOn first left)
    (onRight : Set.InjOn second right)
    (compatible :
      ∀ letter ∈ left, ∀ other ∈ right, first letter = second other ↔ letter = other) :
    ∃ change,
      Set.EqOn change first left ∧
        Set.EqOn change second right ∧
        Set.InjOn change (left ∪ right) := by
  classical
  have likeFirst : Set.EqOn (left.piecewise first second) first left :=
    Set.piecewise_eqOn left first second
  have likeSecond : Set.EqOn (left.piecewise first second) second right := by
    intro letter isRight
    by_cases isLeft : letter ∈ left
    · rw [likeFirst isLeft]
      exact (compatible letter isLeft letter isRight).mpr rfl
    · exact Set.piecewise_eqOn_compl left first second isLeft
  refine ⟨left.piecewise first second, likeFirst, likeSecond, ?_⟩
  intro letter isKnown other otherKnown same
  rcases isKnown with isLeft | isRight <;> rcases otherKnown with otherLeft | otherRight
  · rw [likeFirst isLeft, likeFirst otherLeft] at same
    exact onLeft isLeft otherLeft same
  · rw [likeFirst isLeft, likeSecond otherRight] at same
    exact (compatible letter isLeft other otherRight).mp same
  · rw [likeSecond isRight, likeFirst otherLeft] at same
    exact ((compatible other otherLeft letter isRight).mp same.symm).symm
  · rw [likeSecond isRight, likeSecond otherRight] at same
    exact onRight isRight otherRight same

/-- The types are the same up to letters: different variables get different ones. -/
def Variant (first second : Ty) : Prop :=
  ∃ change : Char → Char,
    Set.InjOn change first.letterSet ∧ first.relabel change = second

section Relabel

variable {change other : Char → Char} {ty : Ty}

attribute [local simp] relabel relabelAll

theorem relabelAll_eq_map (change : Char → Char) (types : List Ty) :
    relabelAll change types = types.map (relabel change) := by
  induction types with
  | nil =>
      rfl
  | cons ty rest inductionHypothesis =>
      simp [inductionHypothesis]

/-- The letters are changed one by one. -/
theorem letters_relabel (change : Char → Char) (ty : Ty) :
    (ty.relabel change).letters = ty.letters.map change := by
  induction ty with
  | prod factors inductionHypothesis =>
      simp only [relabel, letters, lettersOfAll_eq_flatMap, relabelAll_eq_map,
        List.flatMap_def, List.map_map, List.map_flatten]
      exact congrArg List.flatten (List.map_congr_left inductionHypothesis)
  | _ =>
      simp_all [letters]

theorem mem_letters_relabel {letter : Char} :
    letter ∈ (ty.relabel change).letters ↔ ∃ source ∈ ty.letters, change source = letter := by
  rw [letters_relabel, List.mem_map]

@[simp] theorem relabel_id (ty : Ty) : ty.relabel id = ty := by
  induction ty with
  | prod factors inductionHypothesis =>
      simp only [relabel, relabelAll_eq_map, Ty.prod.injEq]
      exact (List.map_congr_left inductionHypothesis).trans (List.map_id _)
  | _ =>
      simp_all

/-- Letters are changed twice by changing them once. -/
theorem relabel_relabel (ty : Ty) :
    (ty.relabel change).relabel other = ty.relabel (other ∘ change) := by
  induction ty with
  | prod factors inductionHypothesis =>
      simp only [relabel, relabelAll_eq_map, List.map_map, Ty.prod.injEq]
      exact List.map_congr_left inductionHypothesis
  | _ =>
      simp_all

/--
A substitution on changed letters is a change of letters after another
substitution if that is so for every letter of the type.
-/
theorem apply_relabel
    {first second : Substitution}
    (agree :
      ∀ letter ∈ ty.letters,
        second.apply (.var (change letter)) = (first.apply (.var letter)).relabel other) :
    second.apply (ty.relabel change) = (first.apply ty).relabel other := by
  induction ty with
  | atom letter =>
      rfl
  | var letter =>
      exact agree letter (by simp [letters])
  | fn domain range domainHypothesis rangeHypothesis =>
      have domains := domainHypothesis fun letter member =>
        agree letter (by simp [letters, member])
      have ranges := rangeHypothesis fun letter member =>
        agree letter (by simp [letters, member])
      simp only [Substitution.apply, relabel, domains, ranges]
  | prod factors inductionHypothesis =>
      simp only [Substitution.apply, Substitution.applyAll_eq_map, relabel, relabelAll_eq_map,
        List.map_map, Ty.prod.injEq]
      exact List.map_congr_left fun factor isFactor =>
        inductionHypothesis factor isFactor fun letter member =>
          agree letter (mem_letters_prod.mpr ⟨factor, isFactor, member⟩)

/-- Changes that agree on the letters of a type do the same to it. -/
theorem relabel_congr (agree : ∀ letter ∈ ty.letters, change letter = other letter) :
    ty.relabel change = ty.relabel other := by
  have changed :
      Substitution.empty.apply (ty.relabel change) =
        (Substitution.empty.apply ty).relabel other :=
    apply_relabel fun letter member => by simp [agree letter member]
  simpa only [Substitution.apply_empty] using changed

/-- A substitution that gives every variable another letter changes the letters. -/
theorem apply_eq_relabel
    {substitution : Substitution}
    (changes :
      ∀ letter ∈ ty.letters, substitution.apply (.var letter) = .var (change letter)) :
    substitution.apply ty = ty.relabel change := by
  have changed :
      substitution.apply (ty.relabel id) = (Substitution.empty.apply ty).relabel change :=
    apply_relabel fun letter member => by simpa using changes letter member
  simpa only [relabel_id, Substitution.apply_empty] using changed

/-- A change by which different letters stay different can be undone. -/
theorem relabel_invFunOn
    {known : Set Char}
    (injective : Set.InjOn change known)
    (allKnown : ty.letterSet ⊆ known) :
    (ty.relabel change).relabel (Function.invFunOn change known) = ty := by
  have undone : ty.relabel (Function.invFunOn change known ∘ change) = ty.relabel id :=
    relabel_congr fun letter member => injective.leftInvOn_invFunOn (allKnown member)
  rw [relabel_relabel, undone, relabel_id]

/-- A type keeps its outermost constructor, unless it is a variable. -/
theorem head?_relabel : (ty.relabel change).head? = ty.head? := by
  cases ty <;> simp [head?, relabelAll_eq_map]

@[simp] theorem truth_aligns_relabel : truth.aligns (ty.relabel change) = truth.aligns ty := by
  rw [Bool.eq_iff_iff, truth_aligns_iff, truth_aligns_iff, head?_relabel]

theorem demandTruth_relabel_iff :
    (ty.relabel change).demandTruth = .ok () ↔ ty.demandTruth = .ok () := by
  rw [demandTruth_eq_ok_iff, demandTruth_eq_ok_iff, truth_aligns_relabel]

theorem isSome_element?_relabel :
    (ty.relabel change).element?.isSome = ty.element?.isSome := by
  cases ty with
  | fn domain range =>
      simp only [relabel, element?, truth_aligns_relabel]
      split <;> rfl
  | _ =>
      rfl

/-- Where letters stay different, nothing but a variable becomes its new letter. -/
theorem relabel_eq_var_iff
    {known : Set Char}
    {letter : Char}
    (injective : Set.InjOn change known)
    (isKnown : letter ∈ known)
    (allKnown : ty.letterSet ⊆ known) :
    ty.relabel change = .var (change letter) ↔ ty = .var letter := by
  cases ty with
  | var source =>
      simp [injective.eq_iff (letterSet_var_subset_iff.mp allKnown) isKnown]
  | _ =>
      simp

/-- A letter that stays different from the others occurs after the change if it did before. -/
theorem change_mem_letters_relabel_iff
    {known : Set Char}
    {letter : Char}
    (injective : Set.InjOn change known)
    (isKnown : letter ∈ known)
    (allKnown : ty.letterSet ⊆ known) :
    change letter ∈ (ty.relabel change).letters ↔ letter ∈ ty.letters := by
  rw [mem_letters_relabel]
  constructor
  · rintro ⟨source, member, same⟩
    exact injective (allKnown member) isKnown same ▸ member
  · intro member
    exact ⟨letter, member, rfl⟩

end Relabel

namespace Substitution

/-- On known letters one substitution does what another one does after the letters are changed. -/
structure Mirrors
    (change : Char → Char)
    (known : Set Char)
    (first second : Substitution) : Prop where
  /-- No unknown letters come in. -/
  closed : ∀ letter ∈ known, (first.apply (.var letter)).letterSet ⊆ known
  same :
    ∀ letter ∈ known,
      second.apply (.var (change letter)) = (first.apply (.var letter)).relabel change

namespace Mirrors

variable {change : Char → Char} {known : Set Char}

theorem apply
    {first second : Substitution}
    {ty : Ty}
    (mirrors : Mirrors change known first second)
    (allKnown : ty.letterSet ⊆ known) :
    second.apply (ty.relabel change) = (first.apply ty).relabel change :=
  apply_relabel fun letter member => mirrors.same letter (allKnown member)

theorem letterSet_apply
    {first second : Substitution}
    {ty : Ty}
    (mirrors : Mirrors change known first second)
    (allKnown : ty.letterSet ⊆ known) :
    (first.apply ty).letterSet ⊆ known := by
  intro letter member
  obtain ⟨source, isSource, inImage⟩ := exists_mem_letters_of_mem_letters_apply member
  exact mirrors.closed source (allKnown isSource) inImage

theorem empty : Mirrors change known .empty .empty where
  closed letter isKnown other member := by
    rw [apply_empty] at member
    exact letterSet_var_subset_iff.mpr isKnown member
  same letter _ := by
    rw [apply_empty, apply_empty, relabel]

/-- Where letters stay different, the replacement of one mirrors that of the other. -/
theorem single
    {letter : Char}
    {ty : Ty}
    (injective : Set.InjOn change known)
    (isKnown : letter ∈ known)
    (allKnown : ty.letterSet ⊆ known) :
    Mirrors change known (.single letter ty) (.single (change letter) (ty.relabel change)) where
  closed other otherKnown := by
    by_cases same : other = letter
    · simpa [Substitution.apply, same] using allKnown
    · simpa [Substitution.apply, same] using otherKnown
  same other otherKnown := by
    have changed : change other = change letter ↔ other = letter :=
      injective.eq_iff otherKnown isKnown
    by_cases same : other = letter <;> simp [Substitution.apply, changed, same, relabel]

theorem compose
    {outer inner outer' inner' : Substitution}
    (ofOuter : Mirrors change known outer outer')
    (ofInner : Mirrors change known inner inner') :
    Mirrors change known (outer.compose inner) (outer'.compose inner') where
  closed letter isKnown := by
    rw [apply_compose]
    exact ofOuter.letterSet_apply (ofInner.closed letter isKnown)
  same letter isKnown := by
    rw [apply_compose, apply_compose, ofInner.same letter isKnown]
    exact ofOuter.apply (ofInner.closed letter isKnown)

end Mirrors

end Substitution

open Substitution (Mirrors)

namespace Equations

/-- The equations with other letters. -/
def relabel (change : Char → Char) (equations : Equations) : Equations :=
  equations.map fun equation => (equation.1.relabel change, equation.2.relabel change)

/-- The letters of all equations are known. -/
def Within (known : Set Char) (equations : Equations) : Prop :=
  ∀ equation ∈ equations, equation.1.letterSet ⊆ known ∧ equation.2.letterSet ⊆ known

variable {change : Char → Char} {known : Set Char} {rest : Equations}

@[simp] theorem relabel_cons (left right : Ty) :
    relabel change ((left, right) :: rest) =
      (left.relabel change, right.relabel change) :: relabel change rest :=
  rfl

@[simp] theorem within_cons_iff {left right : Ty} :
    Within known ((left, right) :: rest) ↔
      (left.letterSet ⊆ known ∧ right.letterSet ⊆ known) ∧ Within known rest :=
  List.forall_mem_cons

/-- Equations between factors have known letters if the products have. -/
theorem Within.zip_append
    {factors others : List Ty}
    (within : Within known ((.prod factors, .prod others) :: rest)) :
    Within known (factors.zip others ++ rest) := by
  simp only [within_cons_iff, letterSet_prod_subset_iff] at within
  intro equation member
  rcases List.mem_append.mp member with inZip | inRest
  · obtain ⟨isFactor, isOther⟩ := List.of_mem_zip inZip
    exact ⟨within.1.1 _ isFactor, within.1.2 _ isOther⟩
  · exact within.2 equation inRest

theorem relabel_zip_append (factors others : List Ty) :
    relabel change (factors.zip others ++ rest) =
      (relabelAll change factors).zip (relabelAll change others) ++ relabel change rest := by
  rw [relabel, List.map_append, relabelAll_eq_map, relabelAll_eq_map, List.zip_map]
  rfl

/-- Equations with other letters are instantiated by what mirrors the substitution. -/
theorem Within.instantiate
    {first second : Substitution}
    (within : Within known rest)
    (mirrors : Mirrors change known first second) :
    Within known (rest.instantiate first) ∧
      (rest.relabel change).instantiate second = (rest.instantiate first).relabel change := by
  constructor
  · simp only [Within, Equations.instantiate, List.forall_mem_map]
    exact fun equation member =>
      ⟨mirrors.letterSet_apply (within equation member).1,
        mirrors.letterSet_apply (within equation member).2⟩
  · simp only [Equations.relabel, Equations.instantiate, List.map_map]
    refine List.map_congr_left fun equation member => ?_
    exact Prod.ext (mirrors.apply (within equation member).1)
      (mirrors.apply (within equation member).2)

end Equations

/--
Unification of equations with other letters goes through in the same way, and
what it finds mirrors what it found before.
-/
theorem exists_unify_relabel
    {change : Char → Char}
    {known : Set Char}
    {equations : Equations}
    {solution mirrored result : Substitution}
    (injective : Set.InjOn change known)
    (within : equations.Within known)
    (mirrors : Mirrors change known solution mirrored)
    (unified : unify equations solution = .ok result) :
    ∃ other,
      unify (equations.relabel change) mirrored = .ok other ∧
        Mirrors change known result other := by
  -- Known letters stay different, so every test in the run comes out as before, and the
  -- replacement of a variable keeps the letters known and the substitutions mirrored.
  fun_induction unify equations solution generalizing mirrored with
  | case1 solution =>
      cases unified
      exact ⟨mirrored, by simp [Equations.relabel, unify], mirrors⟩
  | case2 letter rest solution inductionHypothesis =>
      obtain ⟨_, restWithin⟩ := Equations.within_cons_iff.mp within
      obtain ⟨other, found, mirrorsResult⟩ := inductionHypothesis restWithin mirrors unified
      exact ⟨other, by simp [relabel, unify, found], mirrorsResult⟩
  | case4 letter ty rest solution different acyclic inductionHypothesis =>
      obtain ⟨⟨letterKnown, tyKnown⟩, restWithin⟩ := Equations.within_cons_iff.mp within
      have isKnown : letter ∈ known := letterSet_var_subset_iff.mp letterKnown
      have replaces := Mirrors.single injective isKnown tyKnown
      obtain ⟨instantiated, same⟩ := restWithin.instantiate replaces
      obtain ⟨other, found, mirrorsResult⟩ :=
        inductionHypothesis instantiated (replaces.compose mirrors) unified
      refine ⟨other, ?_, mirrorsResult⟩
      rw [Equations.relabel_cons, relabel, unify,
        if_neg (mt (relabel_eq_var_iff injective isKnown tyKnown).mp different),
        if_neg (mt (change_mem_letters_relabel_iff injective isKnown tyKnown).mp acyclic),
        same, found]
  | case6 ty letter rest solution noVariable acyclic inductionHypothesis =>
      obtain ⟨⟨tyKnown, letterKnown⟩, restWithin⟩ := Equations.within_cons_iff.mp within
      have isKnown : letter ∈ known := letterSet_var_subset_iff.mp letterKnown
      have replaces := Mirrors.single injective isKnown tyKnown
      obtain ⟨instantiated, same⟩ := restWithin.instantiate replaces
      obtain ⟨other, found, mirrorsResult⟩ :=
        inductionHypothesis instantiated (replaces.compose mirrors) unified
      refine ⟨other, ?_, mirrorsResult⟩
      have stillNoVariable (source : Char) : ty.relabel change ≠ .var source := by
        cases ty with
        | var name =>
            exact (noVariable name rfl).elim
        | _ =>
            simp [relabel]
      rw [Equations.relabel_cons, relabel, unify,
        if_neg (mt (change_mem_letters_relabel_iff injective isKnown tyKnown).mp acyclic),
        same, found]
      exact stillNoVariable
  | case7 letter rest solution inductionHypothesis =>
      obtain ⟨_, restWithin⟩ := Equations.within_cons_iff.mp within
      obtain ⟨other, found, mirrorsResult⟩ := inductionHypothesis restWithin mirrors unified
      exact ⟨other, by simp [relabel, unify, found], mirrorsResult⟩
  | case9 domain range otherDomain otherRange rest solution inductionHypothesis =>
      have parts :
          Equations.Within known ((domain, otherDomain) :: (range, otherRange) :: rest) := by
        simp only [Equations.within_cons_iff, letterSet_fn_subset_iff] at within ⊢
        grind
      obtain ⟨other, found, mirrorsResult⟩ := inductionHypothesis parts mirrors unified
      exact ⟨other, by simpa [relabel, unify] using found, mirrorsResult⟩
  | case10 factors others rest solution sameLength inductionHypothesis =>
      obtain ⟨other, found, mirrorsResult⟩ :=
        inductionHypothesis within.zip_append mirrors unified
      refine ⟨other, ?_, mirrorsResult⟩
      have stillSameLength :
          (relabelAll change factors).length = (relabelAll change others).length := by
        simpa [relabelAll_eq_map] using sameLength
      rw [Equations.relabel_cons, relabel, relabel, unify, if_pos stillSameLength,
        ← Equations.relabel_zip_append, found]
  | case3 | case5 | case8 | case11 | case12 =>
      cases unified

/-- Types with other letters are aligned in the same way. -/
theorem exists_align_relabel
    {change : Char → Char}
    {known : Set Char}
    {left right : Ty}
    {alignment : Substitution}
    (injective : Set.InjOn change known)
    (leftKnown : left.letterSet ⊆ known)
    (rightKnown : right.letterSet ⊆ known)
    (aligned : left.align right = .ok alignment) :
    ∃ other,
      (left.relabel change).align (right.relabel change) = .ok other ∧
        Mirrors change known alignment other := by
  have within : Equations.Within known [(left, right)] := by
    simp [Equations.Within, leftKnown, rightKnown]
  obtain ⟨other, found, mirrors⟩ :=
    exists_unify_relabel injective within .empty (unify_of_align aligned)
  refine ⟨other, ?_, mirrors⟩
  simp only [Equations.relabel, List.map_cons, List.map_nil] at found
  rw [align, found]

end TypedLambda.Ty
