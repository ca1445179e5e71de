import TypedLambda.Proofs.Ty.RenameApart

namespace TypedLambda.Ty

/-!
# The type of truth values

A type can be aligned with that of truth values if it is that type or a
variable. Whether the range of a function can be is one question, and whether
it still can be after the domain has been aligned is another: the range may be
a variable that the domain has too.
-/

theorem aligns_iff {left right : Ty} :
    left.aligns right = true ↔ ∃ alignment, left.align right = .ok alignment := by
  unfold aligns
  cases left.align right <;> simp [Except.isOk, Except.toBool]

/-- Types with different outermost constructors cannot be aligned. -/
theorem aligns_eq_false_of_head?_ne
    {left right : Ty}
    {leftHead rightHead : Head}
    (ofLeft : left.head? = some leftHead)
    (ofRight : right.head? = some rightHead)
    (different : leftHead ≠ rightHead) :
    left.aligns right = false := by
  rw [← Bool.not_eq_true, aligns_iff, exists_align_eq_ok_iff]
  rintro ⟨unifier, same⟩
  exact (Conflict.Between.clash ofLeft ofRight different).apply_ne unifier same

/-- A type can be that of truth values if it is a variable or that type itself. -/
theorem truth_aligns_iff {ty : Ty} :
    truth.aligns ty = true ↔ ∀ head, ty.head? = some head → head = .atom 't' := by
  rw [aligns_iff, exists_align_eq_ok_iff]
  constructor
  · rintro ⟨unifier, same⟩ head found
    have kept := head?_apply found unifier
    rw [← same] at kept
    exact (Option.some.inj kept).symm
  · intro onlyTruth
    cases ty with
    | atom letter =>
        obtain rfl : letter = 't' := by simpa [head?] using onlyTruth
        exact ⟨.empty, rfl⟩
    | var letter =>
        exact ⟨.single letter truth, by simp [Substitution.apply, truth]⟩
    | fn domain range =>
        simp [head?] at onlyTruth
    | prod factors =>
        simp [head?] at onlyTruth

@[simp] theorem truth_aligns_truth : truth.aligns truth = true :=
  truth_aligns_iff.mpr fun _ found => (Option.some.inj found).symm

@[simp] theorem truth_aligns_var (letter : Char) : truth.aligns (.var letter) = true :=
  truth_aligns_iff.mpr fun _ found => by cases found

theorem demandTruth_eq_ok_iff {ty : Ty} :
    ty.demandTruth = .ok () ↔ truth.aligns ty = true := by
  rw [aligns_iff, demandTruth, Outcome.bind_eq_ok_iff]
  simp

/--
A range still can be that of truth values when the variables of the domain have
been replaced: it is no variable of the domain, or its image can.
-/
def KeepsTruth (substitution : Substitution) (domain range : Ty) : Prop :=
  (∀ letter ∈ range.letters, letter ∉ domain.letters) ∨
    truth.aligns (substitution.apply range) = true

/--
Applied to what an idempotent substitution makes of its domain, a function to
what can be truth values yields what can be truth values if its range keeps
that.
-/
theorem exists_align_instance_truth
    {substitution : Substitution}
    {domain range image : Ty}
    (idempotent : substitution.Absorbs substitution)
    (isImage : image = substitution.apply domain)
    (truthful : truth.aligns range = true) :
    ∃ alignment,
      domain.align ((image.renameApart (.fn domain range)).apply image) = .ok alignment ∧
        (truth.aligns (alignment.apply range) = true ↔
          KeepsTruth substitution domain range) := by
  obtain ⟨alignment, aligned, onVar⟩ := exists_align_instance idempotent isImage
  refine ⟨alignment, aligned, ?_⟩
  rw [truth_aligns_iff] at truthful
  cases range with
  | atom letter =>
      obtain rfl : letter = 't' := by simpa [head?] using truthful
      simp [KeepsTruth, truth_aligns_iff, letters, Substitution.apply, head?]
  | fn | prod =>
      simp [head?] at truthful
  | var letter =>
      by_cases inDomain : letter ∈ domain.letters <;>
        simp [KeepsTruth, letters, truth_aligns_iff, onVar, inDomain]

end TypedLambda.Ty
