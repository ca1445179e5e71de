import TypedLambda.Proofs.Ty.Application
import TypedLambda.Proofs.Ty.RoundTrip

namespace TypedLambda.Ty

/-!
# Two types without a variable in common

The renaming that keeps a type apart from another one separates them as long as
there is an unused letter for every variable that they share, and only then.
Types that were read have small letters for variables, so at most 26 variables
are shared and all capitals are unused: the letters never run out for them.
-/

/--
The substitution separates a type from another one: the variables that both have,
and no others, get letters of their own, which neither type has. No variable of
the substituted type occurs in the other one, and the substitution can be undone.
-/
structure Substitution.Separates (substitution : Substitution) (ty other : Ty) : Prop where
  replaces_iff :
    ∀ letter,
      (∃ image, substitution.get? letter = some image) ↔
        letter ∈ ty.letters ∧ letter ∈ other.letters
  fresh :
    ∀ letter image,
      substitution.get? letter = some image →
        ∃ new ∈ freshLetters,
          image = .var new ∧ new ∉ ty.letters ∧ new ∉ other.letters
  injective :
    ∀ first second image,
      substitution.get? first = some image →
        substitution.get? second = some image →
          first = second
  apart : ∀ letter ∈ (substitution.apply ty).letters, letter ∉ other.letters
  undone : ∃ back : Substitution, back.apply (substitution.apply ty) = ty

section Separation

open Substitution

variable {ty other : Ty} {letter : Char} {image : Ty}

/-- Only shared variables are given an image, and the image is an unused letter. -/
theorem mem_of_get?_renameApart
    (found : (ty.renameApart other).get? letter = some image) :
    letter ∈ ty.sharedLetters other ∧
      ∃ new ∈ ty.unusedLetters other, image = .var new := by
  rw [get?_renameApart] at found
  obtain ⟨shared, isImage⟩ := List.of_mem_zip (mem_of_entryOf?_eq_some found)
  obtain ⟨new, unused, rfl⟩ := List.mem_map.mp isImage
  exact ⟨shared, new, unused, rfl⟩

theorem mem_unusedLetters :
    letter ∈ ty.unusedLetters other ↔
      letter ∈ freshLetters ∧ letter ∉ ty.letters ∧ letter ∉ other.letters := by
  simp [unusedLetters]

theorem nodup_sharedLetters : (ty.sharedLetters other).Nodup :=
  List.Pairwise.filter _ ((Sorting.sort_perm _ _).nodup_iff.mpr (Sorting.distinct_nodup _))

/-- With a letter for every shared variable, the two types are separated. -/
theorem separates_of_lettersSuffice (suffice : ty.LettersSuffice other) :
    (ty.renameApart other).Separates ty other where
  replaces_iff letter := by
    rw [← mem_sharedLetters]
    constructor
    · rintro ⟨image, found⟩
      exact (mem_of_get?_renameApart found).1
    · intro shared
      exact ⟨_, (get?_renameApart_of_shared suffice shared).2⟩
  fresh letter image found := by
    obtain ⟨_, new, unused, isNew⟩ := mem_of_get?_renameApart found
    obtain ⟨isFresh, notOwn, notOther⟩ := mem_unusedLetters.mp unused
    exact ⟨new, isFresh, isNew, notOwn, notOther⟩
  injective first second image found alsoFound := by
    rw [get?_renameApart] at found alsoFound
    exact eq_of_entryOf?_zip nodup_unusedLetters found alsoFound
  apart letter member := by
    rw [apply_renameApart] at member
    obtain ⟨source, inTy, rfl⟩ := mem_letters_relabel.mp member
    exact apartLetter_notMem suffice inTy
  undone := by
    refine ⟨jointly other ty empty empty, ?_⟩
    rw [apply_jointly_argument suffice, apply_empty]

/-- Where every shared variable is replaced, there was an unused letter for each of them. -/
theorem lettersSuffice_of_separates
    (separates : (ty.renameApart other).Separates ty other) :
    ty.LettersSuffice other := by
  let entries := (ty.sharedLetters other).zip ((ty.unusedLetters other).map Ty.var)
  have replaced : ∀ letter ∈ ty.sharedLetters other, letter ∈ entries.map Prod.fst := by
    intro letter shared
    obtain ⟨image, found⟩ := (separates.replaces_iff letter).mpr (mem_sharedLetters.mp shared)
    rw [get?_renameApart] at found
    exact List.mem_map.mpr ⟨_, mem_of_entryOf?_eq_some found, rfl⟩
  have enough := nodup_sharedLetters.length_le_of_subset replaced
  simp only [entries, List.length_map, List.length_zip] at enough
  exact Nat.le_trans enough (Nat.min_le_right _ _)

end Separation

/-- The letters a to z. -/
def smallLetters : List Char :=
  (List.range 26).map fun index => Char.ofNat (97 + index)

/-- The letters A to Z. -/
def capitals : List Char :=
  (List.range 26).map fun index => Char.ofNat (65 + index)

section Readable

variable {ty other : Ty} {letter : Char}

theorem mem_smallLetters (small : Text.isSmallLetter letter = true) :
    letter ∈ smallLetters := by
  simp only [Text.isSmallLetter, Bool.and_eq_true, decide_eq_true_eq] at small
  have low : 97 ≤ letter.toNat := small.1
  have high : letter.toNat ≤ 122 := small.2
  refine List.mem_map.mpr ⟨letter.toNat - 97, List.mem_range.mpr (by omega), ?_⟩
  rw [Nat.add_sub_cancel' low, Char.ofNat_toNat]

/-- No capital is a small letter. -/
theorem isSmallLetter_eq_false (capital : letter ∈ capitals) :
    Text.isSmallLetter letter = false := by
  have noneSmall : capitals.all (fun letter => !Text.isSmallLetter letter) = true := by decide
  simpa using List.all_eq_true.mp noneSmall letter capital

/-- The variables of a type that can be written down are small letters. -/
theorem Readable.isSmallLetter
    (readable : ty.Readable)
    (member : letter ∈ ty.letters) :
    Text.isSmallLetter letter = true := by
  induction readable with
  | atom small =>
      cases member
  | var small =>
      rw [List.mem_singleton.mp member]
      exact small
  | fn _ _ domainHypothesis rangeHypothesis =>
      rcases List.mem_append.mp member with inDomain | inRange
      · exact domainHypothesis inDomain
      · exact rangeHypothesis inRange
  | prod _ _ inductionHypothesis =>
      obtain ⟨factor, isFactor, inFactor⟩ := mem_letters_prod.mp member
      exact inductionHypothesis factor isFactor inFactor

/-- Types that can be written down leave all capitals for the variables that they share. -/
theorem Readable.lettersSuffice
    (readable : ty.Readable)
    (readableOther : other.Readable) :
    ty.LettersSuffice other := by
  have fewShared : (ty.sharedLetters other).length ≤ smallLetters.length :=
    nodup_sharedLetters.length_le_of_subset fun letter shared =>
      mem_smallLetters (readable.isSmallLetter (mem_sharedLetters.mp shared).1)
  have nodupCapitals : capitals.Nodup := by decide
  have manyUnused : capitals.length ≤ (ty.unusedLetters other).length :=
    nodupCapitals.length_le_of_subset fun letter capital => by
      have notSmall := isSmallLetter_eq_false capital
      refine mem_unusedLetters.mpr ⟨List.mem_append_right _ capital, fun inTy => ?_,
        fun inOther => ?_⟩
      · simp [readable.isSmallLetter inTy] at notSmall
      · simp [readableOther.isSmallLetter inOther] at notSmall
  exact Nat.le_trans fewShared manyUnused

end Readable

/--
Keeping a type apart from another one separates them exactly if there is an
unused letter for every variable that they share, and there always is for types
that were read.
-/
theorem renameApart_separates_iff (ty other : Ty) :
    ((ty.renameApart other).Separates ty other ↔ ty.LettersSuffice other) ∧
      ∀ text otherText : String,
        read text = .ok ty → read otherText = .ok other → ty.LettersSuffice other :=
  ⟨⟨lettersSuffice_of_separates, separates_of_lettersSuffice⟩,
    fun _ _ result otherResult =>
      (readable_of_read result).lettersSuffice (readable_of_read otherResult)⟩

/-- The product of all the variables that can be written down. -/
def alphabet : Ty :=
  .prod (smallLetters.map .var)

/-- Kept apart from itself, it has every small letter replaced by a capital. -/
theorem renameApart_separates_alphabet :
    read (alphabet.text .plain) = .ok alphabet ∧
      (alphabet.renameApart alphabet).Separates alphabet alphabet ∧
      (alphabet.renameApart alphabet).apply alphabet = .prod (capitals.map .var) := by
  have allSmall : smallLetters.all Text.isSmallLetter = true := by decide
  have readable : alphabet.Readable := by
    refine .prod (by decide) fun factor isFactor => ?_
    obtain ⟨letter, isLetter, rfl⟩ := List.mem_map.mp isFactor
    exact .var (List.all_eq_true.mp allSmall letter isLetter)
  have result := readable.read_text .plain
  obtain ⟨separates_iff, sufficeWhenRead⟩ := renameApart_separates_iff alphabet alphabet
  refine ⟨result, separates_iff.mpr (sufficeWhenRead _ _ result result), ?_⟩
  decide +kernel

end TypedLambda.Ty
