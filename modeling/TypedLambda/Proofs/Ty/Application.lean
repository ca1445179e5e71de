import TypedLambda.Proofs.Outcome
import TypedLambda.Proofs.Ty.Relabelling

namespace TypedLambda.Ty

/-!
# The type of an application

The type variables that an argument shares with its function get letters that
neither of them has, as long as there are such letters. If there are enough of
them, function and argument have no variable in common afterwards, and the type
of the argument is the same up to letters. The function can then be applied
exactly if its domain and the type of the argument have an instance in common,
each with a substitution of its own, and the type of the application is the
most general one that the range takes on in this way.
-/

open Substitution

/-- The variables that a type shares with another one, in ascending order. -/
def sharedLetters (ty other : Ty) : List Char :=
  ty.letterListing.filter (· ∈ other.letters)

/-- The letters for variables that occur in neither of two types. -/
def unusedLetters (ty other : Ty) : List Char :=
  freshLetters.filter fun letter =>
    letter ∉ ty.letters ∧ letter ∉ other.letters

/-- There is an unused letter for every variable that two types share. -/
def LettersSuffice (ty other : Ty) : Prop :=
  (ty.sharedLetters other).length ≤ (ty.unusedLetters other).length

instance (ty other : Ty) : Decidable (ty.LettersSuffice other) :=
  inferInstanceAs (Decidable (_ ≤ _))

/-- The letter that a variable has when its type has been kept apart from another one. -/
def apartLetter (ty other : Ty) (letter : Char) : Char :=
  match (ty.renameApart other).apply (.var letter) with
  | .var new => new
  | _ => letter

section Lookup

variable {keys : List Char} {images : List Ty} {letter other : Char} {image : Ty}

/-- In a list of pairs that is long enough every key has an image. -/
theorem exists_entryOf?_zip
    (enough : keys.length ≤ images.length)
    (member : letter ∈ keys) :
    ∃ image ∈ images, entryOf? letter (keys.zip images) = some image := by
  induction keys generalizing images with
  | nil =>
      simp at member
  | cons key keys inductionHypothesis =>
      cases images with
      | nil =>
          simp at enough
      | cons image images =>
          rw [List.zip_cons_cons, entryOf?]
          split
          · exact ⟨image, by simp, rfl⟩
          · next different =>
              have inRest := (List.mem_cons.mp member).resolve_left different
              obtain ⟨found, isImage, isFound⟩ :=
                inductionHypothesis (Nat.le_of_succ_le_succ enough) inRest
              exact ⟨found, List.mem_cons_of_mem _ isImage, isFound⟩

/-- Where the images are different, no two letters have the same one. -/
theorem eq_of_entryOf?_zip
    (different : images.Nodup)
    (found : entryOf? letter (keys.zip images) = some image)
    (alsoFound : entryOf? other (keys.zip images) = some image) :
    letter = other := by
  induction keys generalizing images with
  | nil =>
      cases found
  | cons key keys inductionHypothesis =>
      cases images with
      | nil =>
          cases found
      | cons first images =>
          obtain ⟨firstNew, restDifferent⟩ := List.nodup_cons.mp different
          have notFirst {name : Char}
              (inRest : entryOf? name (keys.zip images) = some first) : False :=
            firstNew (List.of_mem_zip (mem_of_entryOf?_eq_some inRest)).2
          rw [List.zip_cons_cons, entryOf?] at found alsoFound
          grind

end Lookup

section Apart

variable {ty other : Ty} {letter : Char}

theorem apply_renameApart_var :
    (ty.renameApart other).apply (.var letter) = .var (ty.apartLetter other letter) := by
  rcases renameApart_var_cases ty other letter with kept | ⟨new, isNew, _⟩
  · simp only [apartLetter, kept]
  · simp only [apartLetter, isNew]

/-- Keeping a type apart is changing its letters. -/
theorem apply_renameApart (ty other any : Ty) :
    (ty.renameApart other).apply any = any.relabel (ty.apartLetter other) :=
  apply_eq_relabel fun _ _ => apply_renameApart_var

theorem mem_sharedLetters :
    letter ∈ ty.sharedLetters other ↔ letter ∈ ty.letters ∧ letter ∈ other.letters := by
  simp [sharedLetters]

/-- Types without a letter in common share none. -/
theorem sharedLetters_eq_nil (disjoint : ∀ letter ∈ ty.letters, letter ∉ other.letters) :
    ty.sharedLetters other = [] :=
  List.filter_eq_nil_iff.mpr fun letter member => by
    simpa using disjoint letter (mem_letterListing.mp member)

/-- There are always enough letters for types without a letter in common. -/
theorem LettersSuffice.of_disjoint
    (disjoint : ∀ letter ∈ ty.letters, letter ∉ other.letters) :
    ty.LettersSuffice other := by
  rw [LettersSuffice, sharedLetters_eq_nil disjoint]
  exact Nat.zero_le _

/-- What a variable becomes is looked up among the shared ones. -/
theorem get?_renameApart :
    (ty.renameApart other).get? letter =
      entryOf? letter ((ty.sharedLetters other).zip ((ty.unusedLetters other).map .var)) :=
  get?_ofList _ letter

/-- A variable that is not shared keeps its letter. -/
theorem apartLetter_eq_self (notShared : letter ∉ ty.sharedLetters other) :
    ty.apartLetter other letter = letter := by
  have missing : (ty.renameApart other).get? letter = none := by
    rw [get?_renameApart, Option.eq_none_iff_forall_ne_some]
    intro image found
    exact notShared (List.of_mem_zip (mem_of_entryOf?_eq_some found)).1
  simp [apartLetter, apply, missing]

/-- A shared variable gets an unused letter, if there are enough. -/
theorem get?_renameApart_of_shared
    (suffice : ty.LettersSuffice other)
    (shared : letter ∈ ty.sharedLetters other) :
    ty.apartLetter other letter ∈ ty.unusedLetters other ∧
      (ty.renameApart other).get? letter = some (.var (ty.apartLetter other letter)) := by
  have enough :
      (ty.sharedLetters other).length ≤ ((ty.unusedLetters other).map Ty.var).length := by
    simpa [LettersSuffice] using suffice
  obtain ⟨_, isImage, found⟩ := exists_entryOf?_zip enough shared
  obtain ⟨new, unused, rfl⟩ := List.mem_map.mp isImage
  rw [← get?_renameApart] at found
  have isNew : ty.apartLetter other letter = new := by
    simp [apartLetter, apply, found]
  rw [isNew]
  exact ⟨unused, found⟩

/-- No unused letter is given twice. -/
theorem nodup_unusedLetters : ((ty.unusedLetters other).map Ty.var).Nodup := by
  have freshNodup : freshLetters.Nodup := by decide
  have unusedNodup : (ty.unusedLetters other).Nodup := List.Pairwise.filter _ freshNodup
  exact List.Pairwise.map _ (fun _ _ different same => different (Ty.var.inj same)) unusedNodup

/-- No letter of the other type is left in the type kept apart. -/
theorem apartLetter_notMem
    (suffice : ty.LettersSuffice other)
    (member : letter ∈ ty.letters) :
    ty.apartLetter other letter ∉ other.letters := by
  by_cases shared : letter ∈ ty.sharedLetters other
  · have unused := (List.mem_filter.mp (get?_renameApart_of_shared suffice shared).1).2
    exact (of_decide_eq_true unused).2
  · rw [apartLetter_eq_self shared]
    exact fun inOther => shared (mem_sharedLetters.mpr ⟨member, inOther⟩)

/-- Different variables of the type get different letters. -/
theorem injOn_apartLetter (suffice : ty.LettersSuffice other) :
    Set.InjOn (ty.apartLetter other) ty.letterSet := by
  have notTaken {letter name : Char}
      (shared : letter ∈ ty.sharedLetters other)
      (inTy : name ∈ ty.letters) :
      ty.apartLetter other letter ≠ name := by
    have unused := (List.mem_filter.mp (get?_renameApart_of_shared suffice shared).1).2
    exact fun same => (of_decide_eq_true unused).1 (same ▸ inTy)
  intro first firstMember second secondMember same
  by_cases firstShared : first ∈ ty.sharedLetters other <;>
    by_cases secondShared : second ∈ ty.sharedLetters other
  · have firstFound := (get?_renameApart_of_shared suffice firstShared).2
    have secondFound := (get?_renameApart_of_shared suffice secondShared).2
    rw [get?_renameApart] at firstFound secondFound
    rw [same] at firstFound
    exact eq_of_entryOf?_zip nodup_unusedLetters firstFound secondFound
  · rw [apartLetter_eq_self secondShared] at same
    exact (notTaken firstShared secondMember same).elim
  · rw [apartLetter_eq_self firstShared] at same
    exact (notTaken secondShared firstMember same.symm).elim
  · rwa [apartLetter_eq_self firstShared, apartLetter_eq_self secondShared] at same

end Apart

/-- Two types have an instance in common, each by a substitution of its own. -/
def Overlap (left right : Ty) : Prop :=
  ∃ onLeft onRight : Substitution, onLeft.apply left = onRight.apply right

namespace Overlap

variable {left right : Ty} {change : Char → Char}

theorem symm (overlap : left.Overlap right) : right.Overlap left := by
  obtain ⟨onLeft, onRight, same⟩ := overlap
  exact ⟨onRight, onLeft, same.symm⟩

/-- What a type with other letters overlaps, the type itself overlaps. -/
theorem of_relabel (overlap : left.Overlap (right.relabel change)) : left.Overlap right := by
  obtain ⟨onLeft, onRight, same⟩ := overlap
  have instantiated :
      onRight.apply (right.relabel change) =
        ((tabulate (fun letter => onRight.apply (.var (change letter))) right.letters).apply
          right).relabel id :=
    apply_relabel fun letter member => by
      rw [apply_tabulate_var, if_pos member, relabel_id]
  exact ⟨onLeft, _, by rw [same, instantiated, relabel_id]⟩

/-- Where different variables keep different letters, the letters do not matter. -/
theorem relabel_iff (injective : Set.InjOn change right.letterSet) :
    left.Overlap (right.relabel change) ↔ left.Overlap right := by
  refine ⟨of_relabel, fun overlap => ?_⟩
  rw [← relabel_invFunOn injective subset_rfl] at overlap
  exact overlap.of_relabel

theorem relabel_left_iff (injective : Set.InjOn change left.letterSet) :
    (left.relabel change).Overlap right ↔ left.Overlap right :=
  ⟨fun overlap => ((relabel_iff injective).mp overlap.symm).symm,
    fun overlap => ((relabel_iff injective).mpr overlap.symm).symm⟩

end Overlap

/-- An application takes a function whose domain can be aligned with the argument kept apart. -/
theorem applyTo_eq_ok_iff
    [ToString Shown]
    {function argument ty : Ty}
    {shown : Shown}
    {alignment : Substitution} :
    function.applyTo argument shown = .ok (ty, alignment) ↔
      ∃ domain range,
        function = .fn domain range ∧
          domain.align ((argument.renameApart function).apply argument) = .ok alignment ∧
          alignment.apply range = ty := by
  cases function with
  | fn domain range =>
      simp only [applyTo, Outcome.bind_eq_ok_iff, Outcome.pure_eq_ok_iff, Prod.mk.injEq,
        fn.injEq]
      grind
  | _ =>
      simp [applyTo]

section Principal

variable {domain range argument : Ty}

/-- What one substitution does to a function type, and another one to an argument kept apart. -/
noncomputable def jointly
    (function argument : Ty)
    (onFunction onArgument : Substitution) :
    Substitution :=
  let before := Function.invFunOn (argument.apartLetter function) argument.letterSet
  tabulate
    (fun letter =>
      if letter ∈ function.letters then
        onFunction.apply (.var letter)
      else
        onArgument.apply (.var (before letter)))
    (function.letters ++ (argument.relabel (argument.apartLetter function)).letters)

theorem apply_jointly_function
    {function ty : Ty}
    {onFunction onArgument : Substitution}
    (within : ∀ letter ∈ ty.letters, letter ∈ function.letters) :
    (jointly function argument onFunction onArgument).apply ty = onFunction.apply ty :=
  apply_congr fun letter member => by
    rw [jointly, apply_tabulate_var, if_pos (List.mem_append_left _ (within letter member)),
      if_pos (within letter member)]

theorem apply_jointly_argument
    {function : Ty}
    {onFunction onArgument : Substitution}
    (suffice : argument.LettersSuffice function) :
    (jointly function argument onFunction onArgument).apply
        ((argument.renameApart function).apply argument) =
      onArgument.apply argument := by
  have instantiated :
      (jointly function argument onFunction onArgument).apply
          (argument.relabel (argument.apartLetter function)) =
        (onArgument.apply argument).relabel id := by
    refine apply_relabel fun letter member => ?_
    have moved : argument.apartLetter function letter ∈
        (argument.relabel (argument.apartLetter function)).letters :=
      mem_letters_relabel.mpr ⟨letter, member, rfl⟩
    have undone := (injOn_apartLetter suffice).leftInvOn_invFunOn member
    rw [relabel_id, jointly, apply_tabulate_var, if_pos (List.mem_append_right _ moved),
      if_neg (apartLetter_notMem suffice member), undone]
  rw [apply_renameApart, instantiated, relabel_id]

/-- Substitutions that make domain and argument the same amount to one that aligns them. -/
theorem exists_unifier_of_apply_eq
    {onFunction onArgument : Substitution}
    (suffice : argument.LettersSuffice (.fn domain range))
    (same : onFunction.apply domain = onArgument.apply argument) :
    ∃ unifier : Substitution,
      unifier.apply domain =
          unifier.apply ((argument.renameApart (.fn domain range)).apply argument) ∧
        unifier.apply range = onFunction.apply range := by
  refine ⟨jointly (.fn domain range) argument onFunction onArgument, ?_, ?_⟩
  · rw [apply_jointly_argument suffice,
      apply_jointly_function fun letter member => List.mem_append_left _ member, same]
  · exact apply_jointly_function fun letter member => List.mem_append_right _ member

/-- With enough letters, a function can be applied to what its domain overlaps. -/
theorem exists_align_apart_iff
    (suffice : argument.LettersSuffice (.fn domain range)) :
    (∃ alignment,
        domain.align ((argument.renameApart (.fn domain range)).apply argument) =
          .ok alignment) ↔
      domain.Overlap argument := by
  rw [exists_align_eq_ok_iff]
  constructor
  · rintro ⟨unifier, same⟩
    exact ⟨unifier, unifier.compose (argument.renameApart (.fn domain range)),
      by rw [apply_compose, same]⟩
  · rintro ⟨onFunction, onArgument, same⟩
    obtain ⟨unifier, unifies, _⟩ := exists_unifier_of_apply_eq suffice same
    exact ⟨unifier, unifies⟩

/-- With enough letters before and after, the letters of the argument do not matter. -/
theorem exists_align_apart_relabel_iff
    {change : Char → Char}
    (injective : Set.InjOn change argument.letterSet)
    (suffice : argument.LettersSuffice (.fn domain range))
    (stillSuffice : (argument.relabel change).LettersSuffice (.fn domain range)) :
    (∃ alignment,
        domain.align (((argument.relabel change).renameApart (.fn domain range)).apply
          (argument.relabel change)) = .ok alignment) ↔
      ∃ alignment,
        domain.align ((argument.renameApart (.fn domain range)).apply argument) =
          .ok alignment := by
  rw [exists_align_apart_iff suffice, exists_align_apart_iff stillSuffice,
    Overlap.relabel_iff injective]

/--
An application has the principal type. If there are letters enough to keep the
variables of the argument apart from those of the function, the function can be
applied exactly if two substitutions, one for each of them, make the domain and
the argument's type the same. The type of the application is what the range
becomes by two such substitutions, and what it becomes by any two others is an
instance of that type.
-/
theorem applyTo_principal
    [ToString Shown]
    (shown : Shown)
    (suffice : argument.LettersSuffice (.fn domain range)) :
    ((∃ result, (fn domain range).applyTo argument shown = .ok result) ↔
        ∃ onFunction onArgument : Substitution,
          onFunction.apply domain = onArgument.apply argument) ∧
      ∀ ty alignment,
        (fn domain range).applyTo argument shown = .ok (ty, alignment) →
          (∃ onFunction onArgument : Substitution,
              onFunction.apply domain = onArgument.apply argument ∧
                ty = onFunction.apply range) ∧
            ∀ onFunction onArgument : Substitution,
              onFunction.apply domain = onArgument.apply argument →
                ∃ specialisation : Substitution,
                  specialisation.apply ty = onFunction.apply range := by
  constructor
  · rw [← Overlap, ← exists_align_apart_iff suffice]
    simp only [Prod.exists, applyTo_eq_ok_iff, fn.injEq]
    constructor
    · rintro ⟨_, alignment, _, _, ⟨rfl, rfl⟩, aligned, _⟩
      exact ⟨alignment, aligned⟩
    · rintro ⟨alignment, aligned⟩
      exact ⟨_, alignment, domain, range, ⟨rfl, rfl⟩, aligned, rfl⟩
  · intro ty alignment applied
    obtain ⟨_, _, ⟨⟩, aligned, rfl⟩ := applyTo_eq_ok_iff.mp applied
    obtain ⟨absorbsSelf, solvedBy_iff⟩ := apply_eq_iff_absorbs_alignment aligned
    constructor
    · exact ⟨alignment, alignment.compose (argument.renameApart (.fn domain range)),
        by rw [apply_compose, (solvedBy_iff alignment).mpr absorbsSelf], rfl⟩
    · intro onFunction onArgument same
      obtain ⟨unifier, unifies, onRange⟩ := exists_unifier_of_apply_eq suffice same
      exact ⟨unifier, by rw [(solvedBy_iff unifier).mp unifies range, onRange]⟩

end Principal

/-- The type <'a×'b,<'a,'c>>. -/
def pairFunction : Ty :=
  .fn (.prod [.var 'a', .var 'b']) (.fn (.var 'a') (.var 'c'))

/-- The type 'b×'a. -/
def exchangedPair : Ty :=
  .prod [.var 'b', .var 'a']

/-- Both variables of the argument are renamed, and neither becomes the variable 'c of the range. -/
theorem applyTo_principal_exchangedPair :
    exchangedPair.LettersSuffice pairFunction ∧
      ∃ alignment,
        pairFunction.applyTo exchangedPair "f" =
            .ok (.fn (.var 'e') (.var 'c'), alignment) ∧
          ∃ specialisation : Substitution,
            specialisation.apply (.fn (.var 'e') (.var 'c')) =
              .fn .entity (.var 'c') := by
  have suffice : exchangedPair.LettersSuffice pairFunction := by decide +kernel
  have apart :
      (exchangedPair.renameApart pairFunction).apply exchangedPair =
        .prod [.var 'e', .var 'd'] := by
    decide +kernel
  have aligned :
      ∃ alignment,
        (prod [.var 'a', .var 'b']).align (.prod [.var 'e', .var 'd']) = .ok alignment ∧
          alignment.apply (.fn (.var 'a') (.var 'c')) = .fn (.var 'e') (.var 'c') := by
    simp [align, unify, letters, Equations.instantiate, Substitution.apply, get?_compose]
  obtain ⟨alignment, aligned, onRange⟩ := aligned
  have applied :
      pairFunction.applyTo exchangedPair "f" = .ok (.fn (.var 'e') (.var 'c'), alignment) :=
    applyTo_eq_ok_iff.mpr ⟨_, _, rfl, by rw [apart, aligned], onRange⟩
  obtain ⟨_, principal⟩ := applyTo_principal "f" suffice
  obtain ⟨_, mostGeneral⟩ := principal _ _ applied
  exact ⟨suffice, alignment, applied,
    mostGeneral
      (tabulate (fun letter => if letter = 'a' then .entity else .truth) ['a', 'b'])
      (tabulate (fun letter => if letter = 'b' then .entity else .truth) ['a', 'b']) rfl⟩

end TypedLambda.Ty
