namespace TypedLambda.Sorting

/-!
# Sorted lists

Names, type variables and keys are reported in a fixed order. `sort` keeps
every element of a list, `listing` keeps each element once. Both take the
comparison as a function, so that one pair of definitions serves characters,
names and whole identifiers.
-/

/-- Put an element in front of the first one that it may precede. -/
def insert
    (precedes : α → α → Bool)
    (element : α) :
    List α → List α
  | [] => [element]
  | head :: tail =>
      if precedes element head then
        element :: head :: tail
      else
        head :: insert precedes element tail

/-- The elements of a list in order. -/
def sort
    (precedes : α → α → Bool)
    (elements : List α) :
    List α :=
  elements.foldr (insert precedes) []

/-- The last occurrence of each element. -/
def distinct [DecidableEq α] : List α → List α
  | [] => []
  | head :: tail =>
      if head ∈ tail then
        distinct tail
      else
        head :: distinct tail

/-- The elements of a list in order, each once. -/
def listing
    [DecidableEq α]
    (precedes : α → α → Bool)
    (elements : List α) :
    List α :=
  sort precedes (distinct elements)

/-- Whether a character comes no later than another one, by code point. -/
def charPrecedes (left right : Char) : Bool :=
  left ≤ right

/-- Whether a text comes no later than another one, by the first character that differs. -/
def textPrecedes : List Char → List Char → Bool
  | [], _ => true
  | _ :: _, [] => false
  | left :: lefts, right :: rights =>
      left < right || (left == right && textPrecedes lefts rights)

/-- Whether a name comes no later than another one, by code points. -/
def namePrecedes (left right : String) : Bool :=
  textPrecedes left.toList right.toList

/-- Insertion neither loses nor invents an element. -/
theorem insert_perm
    (precedes : α → α → Bool)
    (element : α)
    (elements : List α) :
    (insert precedes element elements).Perm (element :: elements) := by
  induction elements with
  | nil =>
      exact .refl _
  | cons head tail inductionHypothesis =>
      unfold insert
      split
      · exact .refl _
      · exact (inductionHypothesis.cons head).trans (.swap element head tail)

/-- Sorting neither loses nor invents an element. -/
theorem sort_perm
    (precedes : α → α → Bool)
    (elements : List α) :
    (sort precedes elements).Perm elements := by
  induction elements with
  | nil =>
      exact .refl _
  | cons head tail inductionHypothesis =>
      exact (insert_perm precedes head _).trans (inductionHypothesis.cons head)

/-- A sorted list has the members of the list it sorts. -/
@[simp] theorem mem_sort
    {precedes : α → α → Bool}
    {element : α}
    {elements : List α} :
    element ∈ sort precedes elements ↔ element ∈ elements :=
  (sort_perm precedes elements).mem_iff

/-- Leaving out repetitions leaves out no member. -/
@[simp] theorem mem_distinct
    [DecidableEq α]
    {element : α}
    {elements : List α} :
    element ∈ distinct elements ↔ element ∈ elements := by
  induction elements with
  | nil =>
      simp [distinct]
  | cons head tail inductionHypothesis =>
      unfold distinct
      split
      · next repeated =>
          rw [inductionHypothesis, List.mem_cons]
          constructor
          · exact Or.inr
          · rintro (rfl | member)
            · exact repeated
            · exact member
      · simp [inductionHypothesis]

/-- No element is kept twice. -/
theorem distinct_nodup
    [DecidableEq α]
    (elements : List α) :
    (distinct elements).Nodup := by
  induction elements with
  | nil =>
      simp [distinct]
  | cons head tail inductionHypothesis =>
      unfold distinct
      split
      · exact inductionHypothesis
      · next new =>
          exact List.nodup_cons.mpr ⟨by simpa using new, inductionHypothesis⟩

/-- A listing has the members of the list it is taken from. -/
@[simp] theorem mem_listing
    [DecidableEq α]
    {precedes : α → α → Bool}
    {element : α}
    {elements : List α} :
    element ∈ listing precedes elements ↔ element ∈ elements := by
  simp [listing]

/-- More members make for at least as many distinct elements. -/
theorem length_distinct_le
    [DecidableEq α]
    {smaller larger : List α}
    (included : ∀ element ∈ smaller, element ∈ larger) :
    (distinct smaller).length ≤ (distinct larger).length :=
  (distinct_nodup smaller).length_le_of_subset fun element member => by
    simpa using included element (by simpa using member)

/-- A list that lacks a member of another one has fewer distinct elements. -/
theorem length_distinct_lt
    [DecidableEq α]
    {smaller larger : List α}
    {missing : α}
    (included : ∀ element ∈ smaller, element ∈ larger ∧ element ≠ missing)
    (present : missing ∈ larger) :
    (distinct smaller).length < (distinct larger).length := by
  have absent : missing ∉ distinct smaller := fun member =>
    (included missing (by simpa using member)).2 rfl
  have enlarged : (missing :: distinct smaller).Nodup :=
    List.nodup_cons.mpr ⟨absent, distinct_nodup smaller⟩
  refine enlarged.length_le_of_subset fun element member => ?_
  rcases List.mem_cons.mp member with rfl | member
  · simpa using present
  · simpa using (included element (by simpa using member)).1

end TypedLambda.Sorting
