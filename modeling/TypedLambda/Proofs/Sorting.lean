import Mathlib.Data.List.Sort
import TypedLambda.Sorting

namespace TypedLambda.Sorting

/-!
# Sorted texts

Sorting is insertion sort. Where elements are compared by a linear order, two
lists have the same sorted form exactly if one is a permutation of the other,
and the same listing exactly if they have the same members. Texts are compared
lexicographically, which is a linear order.
-/

theorem insert_eq_orderedInsert
    (precedes : α → α → Bool)
    (element : α)
    (elements : List α) :
    insert precedes element elements =
      elements.orderedInsert (precedes · ·) element := by
  induction elements with
  | nil =>
      rfl
  | cons head tail inductionHypothesis =>
      rw [insert, List.orderedInsert_cons, inductionHypothesis]

theorem sort_eq_insertionSort
    (precedes : α → α → Bool)
    (elements : List α) :
    sort precedes elements = elements.insertionSort (precedes · ·) := by
  induction elements with
  | nil =>
      rfl
  | cons head tail inductionHypothesis =>
      rw [List.insertionSort_cons, ← inductionHypothesis,
        ← insert_eq_orderedInsert]
      rfl

section Texts

attribute [local grind =] textPrecedes

theorem textPrecedes_total (left right : List Char) :
    textPrecedes left right = true ∨ textPrecedes right left = true := by
  induction left generalizing right with
  | nil =>
      exact .inl rfl
  | cons head tail inductionHypothesis =>
      cases right with
      | nil =>
          exact .inr rfl
      | cons other rest =>
          have tails := inductionHypothesis rest
          grind

theorem textPrecedes_trans
    {left middle right : List Char}
    (first : textPrecedes left middle = true)
    (second : textPrecedes middle right = true) :
    textPrecedes left right = true := by
  induction left generalizing middle right with
  | nil =>
      rfl
  | cons head tail inductionHypothesis =>
      cases middle with
      | nil =>
          cases first
      | cons other rest =>
          cases right with
          | nil =>
              cases second
          | cons last others =>
              have tails := @inductionHypothesis rest others
              grind

theorem textPrecedes_antisymm
    {left right : List Char}
    (first : textPrecedes left right = true)
    (second : textPrecedes right left = true) :
    left = right := by
  induction left generalizing right with
  | nil =>
      cases right with
      | nil =>
          rfl
      | cons _ _ =>
          cases second
  | cons head tail inductionHypothesis =>
      cases right with
      | nil =>
          cases first
      | cons other rest =>
          have tails := @inductionHypothesis rest
          grind

end Texts

instance : Std.Total (textPrecedes · · = true) :=
  ⟨textPrecedes_total⟩

instance : IsTrans (List Char) (textPrecedes · · = true) :=
  ⟨fun _ _ _ => textPrecedes_trans⟩

instance : Std.Antisymm (textPrecedes · · = true) :=
  ⟨fun _ _ => textPrecedes_antisymm⟩

section Linear

variable
  {precedes : α → α → Bool}
  [Std.Total (precedes · · = true)]
  [IsTrans α (precedes · · = true)]
  [Std.Antisymm (precedes · · = true)]
  {lefts rights : List α}

/-- In a linear order, lists are sorted alike exactly if they are the same up to their order. -/
theorem sort_eq_iff :
    sort precedes lefts = sort precedes rights ↔ lefts.Perm rights := by
  have toSorted (elements : List α) :
      (sort precedes elements).Perm elements :=
    sort_perm precedes elements
  constructor
  · intro same
    exact (toSorted lefts).symm.trans (same ▸ toSorted rights)
  · intro perm
    have sorted (elements : List α) :
        (sort precedes elements).Pairwise (precedes · · = true) := by
      rw [sort_eq_insertionSort]
      exact List.pairwise_insertionSort _ elements
    have samePerm :
        (sort precedes lefts).Perm (sort precedes rights) :=
      (toSorted lefts).trans (perm.trans (toSorted rights).symm)
    exact samePerm.eq_of_pairwise' (sorted lefts) (sorted rights)

/-- In a linear order, lists are listed alike exactly if they have the same members. -/
theorem listing_eq_iff [DecidableEq α] :
    listing precedes lefts = listing precedes rights ↔
      ∀ element, element ∈ lefts ↔ element ∈ rights := by
  rw [listing, listing, sort_eq_iff,
    List.perm_ext_iff_of_nodup (distinct_nodup lefts) (distinct_nodup rights)]
  simp only [mem_distinct]

end Linear

/-- Texts are sorted alike exactly if they are the same up to their order. -/
theorem sort_textPrecedes_eq_iff
    {lefts rights : List (List Char)} :
    sort textPrecedes lefts = sort textPrecedes rights ↔
      lefts.Perm rights :=
  sort_eq_iff

end TypedLambda.Sorting
