import TypedLambda.Ty.Order

namespace TypedLambda.Ty

/-!
# Substitutions for type variables

A substitution maps finitely many type variables to types. Its entries are
kept in ascending order of the variables with one entry for each, so two
substitutions that give every variable the same type are equal.
-/

/-- A finite map from type variables to types. -/
@[ext]
structure Substitution where
  entries : List (Char × Ty)
  ascending : entries.Pairwise fun earlier later => earlier.1 < later.1
  deriving DecidableEq

namespace Substitution

/-- The type that a list of entries gives to a variable. -/
def entryOf? (letter : Char) : List (Char × Ty) → Option Ty
  | [] => none
  | (key, ty) :: rest =>
      if letter = key then some ty else entryOf? letter rest

/-- Put an entry in its place, instead of one for the same variable. -/
def insertEntry
    (letter : Char)
    (ty : Ty) :
    List (Char × Ty) → List (Char × Ty)
  | [] => [(letter, ty)]
  | (key, old) :: rest =>
      if letter < key then
        (letter, ty) :: (key, old) :: rest
      else if letter = key then
        (letter, ty) :: rest
      else
        (key, old) :: insertEntry letter ty rest

/-- The variables with an entry after an insertion. -/
theorem exists_mem_insertEntry
    {letter key : Char}
    {ty image : Ty}
    {entries : List (Char × Ty)}
    (member : (key, image) ∈ insertEntry letter ty entries) :
    key = letter ∨ (key, image) ∈ entries := by
  fun_induction insertEntry letter ty entries with
  | case1 =>
      simp_all
  | case2 =>
      rcases List.mem_cons.mp member with same | member
      · exact .inl (congrArg Prod.fst same)
      · exact .inr member
  | case3 =>
      rcases List.mem_cons.mp member with same | member
      · exact .inl (congrArg Prod.fst same)
      · exact .inr (List.mem_cons_of_mem _ member)
  | case4 _ _ _ _ _ inductionHypothesis =>
      simp only [List.mem_cons] at member ⊢
      rcases member with same | member
      · exact .inr (.inl same)
      · exact (inductionHypothesis member).imp_right .inr

/-- Insertion keeps the entries in ascending order. -/
theorem insertEntry_ascending
    (letter : Char)
    (ty : Ty)
    {entries : List (Char × Ty)}
    (ascending : entries.Pairwise fun earlier later => earlier.1 < later.1) :
    (insertEntry letter ty entries).Pairwise fun earlier later => earlier.1 < later.1 := by
  induction entries with
  | nil =>
      simp [insertEntry]
  | cons entry rest inductionHypothesis =>
      obtain ⟨key, old⟩ := entry
      obtain ⟨above, ascendingRest⟩ := List.pairwise_cons.mp ascending
      unfold insertEntry
      split
      · next below =>
          refine List.pairwise_cons.mpr ⟨fun later member => ?_, ascending⟩
          rcases List.mem_cons.mp member with rfl | member
          · exact below
          · exact Char.lt_trans below (above later member)
      · next notBelow =>
          split
          · next same =>
              exact List.pairwise_cons.mpr ⟨fun later member => same ▸ above later member,
                ascendingRest⟩
          · next different =>
              refine List.pairwise_cons.mpr ⟨fun later member => ?_,
                inductionHypothesis ascendingRest⟩
              obtain ⟨laterKey, image⟩ := later
              rcases exists_mem_insertEntry member with rfl | member
              · exact Std.lt_of_le_of_ne (Std.not_lt.mp notBelow) (Ne.symm different)
              · exact above _ member

/-- The substitution without entries. -/
def empty : Substitution := ⟨[], List.Pairwise.nil⟩

/-- Whether there is no entry. -/
def isEmpty (substitution : Substitution) : Bool :=
  substitution.entries.isEmpty

/-- The type given to a variable. -/
def get? (substitution : Substitution) (letter : Char) : Option Ty :=
  entryOf? letter substitution.entries

/-- Give a variable a type, whatever it had before. -/
def insert
    (substitution : Substitution)
    (letter : Char)
    (ty : Ty) :
    Substitution :=
  ⟨insertEntry letter ty substitution.entries,
    insertEntry_ascending letter ty substitution.ascending⟩

/-- The substitution for a single variable. -/
def single (letter : Char) (ty : Ty) : Substitution :=
  empty.insert letter ty

/-- The substitution with the given entries, of which the first one counts. -/
def ofList (entries : List (Char × Ty)) : Substitution :=
  entries.foldr (fun entry rest => rest.insert entry.1 entry.2) empty

mutual

/-- Replace the variables of a type. -/
def apply (substitution : Substitution) : Ty → Ty
  | .atom letter => .atom letter
  | .var letter => (substitution.get? letter).getD (.var letter)
  | .fn domain range => .fn (substitution.apply domain) (substitution.apply range)
  | .prod factors => .prod (substitution.applyAll factors)

/-- Replace the variables of every type in a list. -/
def applyAll (substitution : Substitution) : List Ty → List Ty
  | [] => []
  | ty :: rest => substitution.apply ty :: substitution.applyAll rest

end

/-- The substitution that acts as the second one followed by the first. -/
def compose (outer inner : Substitution) : Substitution :=
  inner.entries.foldr
    (fun entry rest => rest.insert entry.1 (outer.apply entry.2))
    outer

section Apply

attribute [local simp] apply applyAll

theorem applyAll_eq_map (substitution : Substitution) (types : List Ty) :
    substitution.applyAll types = types.map substitution.apply := by
  induction types with
  | nil =>
      rfl
  | cons ty rest inductionHypothesis =>
      simp [inductionHypothesis]

end Apply

@[simp] theorem get?_empty (letter : Char) :
    empty.get? letter = none :=
  rfl

/-- An insertion changes one variable's type and no other's. -/
@[simp] theorem get?_insert
    (substitution : Substitution)
    (letter other : Char)
    (ty : Ty) :
    (substitution.insert letter ty).get? other =
      if other = letter then some ty else substitution.get? other := by
  unfold get? insert
  obtain ⟨entries, ascending⟩ := substitution
  simp only
  clear ascending
  induction entries with
  | nil =>
      simp [insertEntry, entryOf?]
  | cons entry rest inductionHypothesis =>
      obtain ⟨key, old⟩ := entry
      unfold insertEntry
      split
      · simp [entryOf?]
      · split
        · next same =>
            subst same
            by_cases matching : other = letter <;> simp [entryOf?, matching]
        · next different =>
            by_cases matching : other = key
            · subst matching
              simp [entryOf?, Ne.symm different]
            · simp [entryOf?, matching, inductionHypothesis]

@[simp] theorem get?_single (letter other : Char) (ty : Ty) :
    (single letter ty).get? other = if other = letter then some ty else none := by
  simp [single]

/-- The inner substitution's entries count first, seen through the outer one. -/
theorem get?_compose
    (outer inner : Substitution)
    (letter : Char) :
    (outer.compose inner).get? letter =
      ((inner.get? letter).map outer.apply <|> outer.get? letter) := by
  obtain ⟨entries, ascending⟩ := inner
  unfold compose
  conv => rhs; unfold get?
  simp only
  clear ascending
  induction entries with
  | nil =>
      simp [entryOf?, get?]
  | cons entry rest inductionHypothesis =>
      obtain ⟨key, old⟩ := entry
      by_cases matching : letter = key
      · simp [entryOf?, matching]
      · simpa [entryOf?, matching] using inductionHypothesis

end Substitution

end TypedLambda.Ty
