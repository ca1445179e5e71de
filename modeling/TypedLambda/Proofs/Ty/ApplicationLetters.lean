import TypedLambda.Proofs.Ty.Application

namespace TypedLambda.Ty

/-!
# Applications with other letters

A function and its argument may each get other letters, and the argument is
then kept apart from the function as it is now. What comes of this is one
change of letters for both of them, as they were aligned before, so it leads to
the same alignment and the same type of the application up to these letters.
-/

/-- The type of an argument kept apart from its function. -/
def keptApart (argument function : Ty) : Ty :=
  argument.relabel (argument.apartLetter function)

/--
One change of letters for a function and an argument kept apart: to the
function it does what a change of its own does, and the argument is kept apart
after a change of its own instead of before.
-/
structure ChangesApart
    (function argument : Ty)
    (onFunction onArgument change : Char → Char) : Prop where
  like : Set.EqOn change onFunction function.letterSet
  apart :
    ∀ letter ∈ argument.letters,
      change (argument.apartLetter function letter) =
        (argument.relabel onArgument).apartLetter (function.relabel onFunction)
          (onArgument letter)
  injective :
    Set.InjOn change (function.letterSet ∪ (argument.keptApart function).letterSet)

section ChangesApart

variable {function argument : Ty} {onFunction onArgument change : Char → Char}

/-- With enough letters before and after, two changes of letters become one. -/
theorem exists_changesApart
    (functionInjective : Set.InjOn onFunction function.letterSet)
    (argumentInjective : Set.InjOn onArgument argument.letterSet)
    (suffice : argument.LettersSuffice function)
    (stillSuffice :
      (argument.relabel onArgument).LettersSuffice (function.relabel onFunction)) :
    ∃ change, ChangesApart function argument onFunction onArgument change := by
  -- On the argument kept apart, the change goes back to the argument as it was, makes the
  -- argument's own change, and keeps apart what comes of it.
  let before := Function.invFunOn (argument.apartLetter function) argument.letterSet
  let after letter :=
    (argument.relabel onArgument).apartLetter (function.relabel onFunction)
      (onArgument (before letter))
  have undone {letter : Char} (member : letter ∈ argument.letters) :
      before (argument.apartLetter function letter) = letter :=
    (injOn_apartLetter suffice).leftInvOn_invFunOn member
  have changed {letter : Char} (member : letter ∈ argument.letters) :
      onArgument letter ∈ (argument.relabel onArgument).letters :=
    mem_letters_relabel.mpr ⟨letter, member, rfl⟩
  have afterInjective : Set.InjOn after (argument.keptApart function).letterSet := by
    intro first firstMember second secondMember same
    obtain ⟨letter, member, rfl⟩ := mem_letters_relabel.mp firstMember
    obtain ⟨other, otherMember, rfl⟩ := mem_letters_relabel.mp secondMember
    simp only [after, undone member, undone otherMember] at same
    have sameChanged := injOn_apartLetter stillSuffice (changed member) (changed otherMember) same
    rw [argumentInjective member otherMember sameChanged]
  -- Neither before nor after is there a letter that function and argument share.
  have compatible :
      ∀ letter ∈ function.letterSet, ∀ other ∈ (argument.keptApart function).letterSet,
        onFunction letter = after other ↔ letter = other := by
    intro letter inFunction other otherMember
    obtain ⟨source, member, rfl⟩ := mem_letters_relabel.mp otherMember
    refine iff_of_false (fun same => ?_) (fun same => ?_)
    · simp only [after, undone member] at same
      exact apartLetter_notMem stillSuffice (changed member)
        (mem_letters_relabel.mpr ⟨letter, inFunction, same⟩)
    · exact apartLetter_notMem suffice member (same ▸ inFunction)
  obtain ⟨change, onFirst, onSecond, injective⟩ :=
    exists_common_change functionInjective afterInjective compatible
  refine ⟨change, onFirst, fun letter member => ?_, injective⟩
  rw [onSecond (mem_letters_relabel.mpr ⟨letter, member, rfl⟩)]
  simp only [after, undone member]

namespace ChangesApart

variable {domain range : Ty}

theorem keptApart_relabel
    (changes : ChangesApart function argument onFunction onArgument change) :
    (argument.keptApart function).relabel change =
      (argument.relabel onArgument).keptApart (function.relabel onFunction) := by
  rw [keptApart, keptApart, relabel_relabel, relabel_relabel]
  exact relabel_congr changes.apart

/-- A function that can be applied can be applied after the changes of letters as well. -/
theorem exists_align
    {alignment : Substitution}
    (changes : ChangesApart (.fn domain range) argument onFunction onArgument change)
    (aligned :
      domain.align ((argument.renameApart (.fn domain range)).apply argument) = .ok alignment) :
    ∃ other,
      (domain.relabel onFunction).align
          (((argument.relabel onArgument).renameApart
              ((fn domain range).relabel onFunction)).apply (argument.relabel onArgument)) =
          .ok other ∧
        other.apply (range.relabel onFunction) = (alignment.apply range).relabel change ∧
        (alignment.apply range).letterSet ⊆
          (fn domain range).letterSet ∪ (argument.keptApart (.fn domain range)).letterSet := by
  rw [apply_renameApart, ← keptApart] at aligned
  rw [apply_renameApart, ← keptApart, ← changes.keptApart_relabel]
  have parts := letterSet_fn_subset_iff.mp
    (Set.subset_union_left (s := (fn domain range).letterSet)
      (t := (argument.keptApart (.fn domain range)).letterSet))
  have likeDomain : domain.relabel change = domain.relabel onFunction :=
    relabel_congr fun letter member => changes.like (List.mem_append_left _ member)
  have likeRange : range.relabel change = range.relabel onFunction :=
    relabel_congr fun letter member => changes.like (List.mem_append_right _ member)
  obtain ⟨other, found, mirrors⟩ :=
    exists_align_relabel changes.injective parts.1 Set.subset_union_right aligned
  rw [← likeDomain, ← likeRange]
  exact ⟨other, found, mirrors.apply parts.2, mirrors.letterSet_apply parts.2⟩

end ChangesApart

end ChangesApart

end TypedLambda.Ty
