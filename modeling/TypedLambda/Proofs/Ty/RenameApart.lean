import TypedLambda.Proofs.Ty.Solvability

namespace TypedLambda.Ty

/-!
# Keeping type variables apart

The renaming that keeps the variables of one type apart from those of another
one gives a variable a letter that occurs in neither type, or it leaves the
variable alone. A function can therefore be applied to what a substitution
makes of its domain, even where the letters run out, and the alignment leaves a
variable a variable unless the substitution has made something else of it.
-/

namespace Substitution

/-- Substitutions do the same to a type exactly if they agree on its variables. -/
theorem apply_eq_apply_iff
    {first second : Substitution}
    {ty : Ty} :
    first.apply ty = second.apply ty ↔
      ∀ letter ∈ ty.letters, first.apply (.var letter) = second.apply (.var letter) := by
  refine ⟨fun same => ?_, apply_congr⟩
  induction ty with
  | atom name =>
      simp [letters]
  | var name =>
      simpa [letters] using same
  | fn domain range domainHypothesis rangeHypothesis =>
      rw [apply, apply, Ty.fn.injEq] at same
      intro letter member
      rw [letters, List.mem_append] at member
      rcases member with inDomain | inRange
      · exact domainHypothesis same.1 letter inDomain
      · exact rangeHypothesis same.2 letter inRange
  | prod factors inductionHypothesis =>
      rw [apply, apply, applyAll_eq_map, applyAll_eq_map, Ty.prod.injEq,
        List.map_inj_left] at same
      intro letter member
      obtain ⟨factor, isFactor, inFactor⟩ := mem_letters_prod.mp member
      exact inductionHypothesis factor isFactor (same factor isFactor) letter inFactor

/-- A type stays as it is exactly if its variables do. -/
theorem apply_eq_self_iff
    {substitution : Substitution}
    {ty : Ty} :
    substitution.apply ty = ty ↔
      ∀ letter ∈ ty.letters, substitution.apply (.var letter) = .var letter := by
  have asEmpty := @apply_eq_apply_iff substitution empty ty
  simpa only [apply_empty] using asEmpty

/-- The variables of a substituted type come from what its variables become. -/
theorem exists_mem_letters_of_mem_letters_apply
    {substitution : Substitution}
    {ty : Ty}
    {letter : Char}
    (member : letter ∈ (substitution.apply ty).letters) :
    ∃ source ∈ ty.letters, letter ∈ (substitution.apply (.var source)).letters := by
  induction ty with
  | atom name =>
      simp [apply, letters] at member
  | var name =>
      exact ⟨name, by simp [letters], member⟩
  | fn domain range domainHypothesis rangeHypothesis =>
      rw [apply, letters, List.mem_append] at member
      rcases member with inDomain | inRange
      · obtain ⟨source, isSource, inImage⟩ := domainHypothesis inDomain
        exact ⟨source, by simp [letters, isSource], inImage⟩
      · obtain ⟨source, isSource, inImage⟩ := rangeHypothesis inRange
        exact ⟨source, by simp [letters, isSource], inImage⟩
  | prod factors inductionHypothesis =>
      rw [apply, applyAll_eq_map] at member
      obtain ⟨_, isImage, inFactor⟩ := mem_letters_prod.mp member
      obtain ⟨factor, isFactor, rfl⟩ := List.mem_map.mp isImage
      obtain ⟨source, isSource, inImage⟩ := inductionHypothesis factor isFactor inFactor
      exact ⟨source, mem_letters_prod.mpr ⟨factor, isFactor, isSource⟩, inImage⟩

/-- A substitution made from a list of entries gives what the list gives. -/
@[simp] theorem get?_ofList
    (entries : List (Char × Ty))
    (letter : Char) :
    (ofList entries).get? letter = entryOf? letter entries := by
  induction entries with
  | nil =>
      rfl
  | cons entry rest inductionHypothesis =>
      rw [ofList, List.foldr_cons, ← ofList, get?_insert, inductionHypothesis]
      rfl

/-- The type given to a variable stands in the list of entries. -/
theorem mem_of_entryOf?_eq_some
    {entries : List (Char × Ty)}
    {letter : Char}
    {ty : Ty}
    (found : entryOf? letter entries = some ty) :
    (letter, ty) ∈ entries := by
  induction entries with
  | nil =>
      cases found
  | cons entry rest inductionHypothesis =>
      obtain ⟨key, image⟩ := entry
      rw [entryOf?] at found
      split at found
      · next same =>
          cases found
          simp [same]
      · exact List.mem_cons_of_mem _ (inductionHypothesis found)

/-- The substitution that gives each of the letters its image. -/
def tabulate (image : Char → Ty) (letters : List Char) : Substitution :=
  ofList (letters.map fun letter => (letter, image letter))

theorem apply_tabulate_var
    (image : Char → Ty)
    (letters : List Char)
    (letter : Char) :
    (tabulate image letters).apply (.var letter) =
      if letter ∈ letters then image letter else .var letter := by
  rw [apply, tabulate, get?_ofList]
  induction letters with
  | nil =>
      rfl
  | cons first rest inductionHypothesis =>
      rw [List.map_cons, entryOf?]
      by_cases same : letter = first
      · simp [same]
      · simpa [same] using inductionHypothesis

end Substitution

open Substitution

/-- Keeping apart leaves a variable alone, or it takes a letter that is new to both types. -/
theorem renameApart_var_cases
    (ty other : Ty)
    (letter : Char) :
    (ty.renameApart other).apply (.var letter) = .var letter ∨
      ∃ fresh,
        (ty.renameApart other).apply (.var letter) = .var fresh ∧
          fresh ∉ ty.letters ∧ fresh ∉ other.letters := by
  cases found : (ty.renameApart other).get? letter with
  | none =>
      exact .inl (by simp [apply, found])
  | some image =>
      rw [renameApart, get?_ofList] at found
      have inImages := (List.of_mem_zip (mem_of_entryOf?_eq_some found)).2
      obtain ⟨fresh, isUnused, rfl⟩ := List.mem_map.mp inImages
      have unused := (List.mem_filter.mp isUnused).2
      rw [decide_eq_true_eq] at unused
      refine .inr ⟨fresh, ?_, unused⟩
      rw [apply, renameApart, get?_ofList, found, Option.getD_some]

/-- Keeping type variables apart makes variables of variables. -/
theorem head?_renameApart_var
    (ty other : Ty)
    (letter : Char) :
    ((ty.renameApart other).apply (.var letter)).head? = none := by
  rw [head?_eq_none_iff]
  rcases renameApart_var_cases ty other letter with kept | ⟨fresh, isFresh, _⟩
  · exact ⟨letter, kept⟩
  · exact ⟨fresh, isFresh⟩

/-- What a substitution makes a variable of is a variable. -/
theorem head?_eq_none_of_apply
    {substitution : Substitution}
    {ty : Ty}
    (isVariable : (substitution.apply ty).head? = none) :
    ty.head? = none := by
  cases found : ty.head? with
  | none =>
      rfl
  | some head =>
      rw [head?_apply found substitution] at isVariable
      cases isVariable

section Instance

variable {substitution : Substitution} {domain range image : Ty}

/--
What undoes the alignment of a domain with what a substitution makes of it: the
variables of the domain are replaced as the substitution does and kept apart.
-/
def undoing (substitution : Substitution) (domain range image : Ty) : Substitution :=
  tabulate
    (fun letter =>
      (image.renameApart (.fn domain range)).apply (substitution.apply (.var letter)))
    domain.letters

theorem apply_undoing_var (letter : Char) :
    (undoing substitution domain range image).apply (.var letter) =
      if letter ∈ domain.letters then
        (image.renameApart (.fn domain range)).apply (substitution.apply (.var letter))
      else
        .var letter :=
  apply_tabulate_var _ _ letter

theorem apply_undoing_domain (isImage : image = substitution.apply domain) :
    (undoing substitution domain range image).apply domain =
      (image.renameApart (.fn domain range)).apply image := by
  have composed :
      (image.renameApart (.fn domain range)).apply image =
        ((image.renameApart (.fn domain range)).compose substitution).apply domain := by
    rw [apply_compose, ← isImage]
  rw [composed]
  refine apply_congr fun letter member => ?_
  rw [apply_undoing_var, if_pos member, apply_compose]

/-- Kept apart, the image has no variable left that is to be replaced. -/
theorem apply_undoing_image
    (idempotent : substitution.Absorbs substitution)
    (isImage : image = substitution.apply domain) :
    (undoing substitution domain range image).apply
        ((image.renameApart (.fn domain range)).apply image) =
      (image.renameApart (.fn domain range)).apply image := by
  refine apply_eq_self_iff.mpr fun letter member => ?_
  obtain ⟨source, inImage, isRenamed⟩ := exists_mem_letters_of_mem_letters_apply member
  rw [apply_undoing_var]
  split
  · next inDomain =>
      rcases renameApart_var_cases image (.fn domain range) source with kept | moved
      · have same : letter = source := by simpa [kept, letters] using isRenamed
        have fixed : substitution.apply (.var letter) = .var letter :=
          apply_eq_self_iff.mp (idempotent domain) letter (isImage ▸ same ▸ inImage)
        rw [fixed, same, kept]
      · obtain ⟨fresh, isFresh, _, notShared⟩ := moved
        have same : letter = fresh := by simpa [isFresh, letters] using isRenamed
        exact (notShared (by simp [letters, ← same, inDomain])).elim
  · rfl

/--
A function can be applied to what an idempotent substitution makes of its
domain. The alignment gives each variable of the domain the outermost
constructor that the substitution gives it, and the others stay variables.
-/
theorem exists_align_instance
    (idempotent : substitution.Absorbs substitution)
    (isImage : image = substitution.apply domain) :
    ∃ alignment,
      domain.align ((image.renameApart (.fn domain range)).apply image) = .ok alignment ∧
        ∀ letter,
          (alignment.apply (.var letter)).head? =
            if letter ∈ domain.letters then
              (substitution.apply (.var letter)).head?
            else
              none := by
  have undone :
      (undoing substitution domain range image).apply domain =
        (undoing substitution domain range image).apply
          ((image.renameApart (.fn domain range)).apply image) :=
    (apply_undoing_domain isImage).trans (apply_undoing_image idempotent isImage).symm
  obtain ⟨alignment, aligned⟩ := exists_align_eq_ok_iff.mpr ⟨_, undone⟩
  obtain ⟨absorbsSelf, solvedBy_iff⟩ := apply_eq_iff_absorbs_alignment aligned
  have same := (solvedBy_iff alignment).mpr absorbsSelf
  have absorbs := (solvedBy_iff _).mp undone
  have staysVariable
      {letter : Char}
      (isVariable :
        ((undoing substitution domain range image).apply (.var letter)).head? = none) :
      (alignment.apply (.var letter)).head? = none :=
    head?_eq_none_of_apply (absorbs (.var letter) ▸ isVariable)
  refine ⟨alignment, aligned, fun letter => ?_⟩
  split
  · next inDomain =>
      cases found : (substitution.apply (.var letter)).head? with
      | some head =>
          rw [← apply_compose, isImage, ← apply_compose, apply_eq_apply_iff] at same
          have replaced := same letter inDomain
          rw [apply_compose, apply_compose] at replaced
          rw [replaced]
          exact head?_apply (head?_apply found _) alignment
      | none =>
          obtain ⟨other, isOther⟩ := head?_eq_none_iff.mp found
          apply staysVariable
          rw [apply_undoing_var, if_pos inDomain, isOther]
          exact head?_renameApart_var image _ other
  · next notInDomain =>
      apply staysVariable
      rw [apply_undoing_var, if_neg notInDomain]
      rfl

end Instance

end TypedLambda.Ty
