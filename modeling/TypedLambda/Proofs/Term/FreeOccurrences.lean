import TypedLambda.Proofs.Alpha.Equivalence
import TypedLambda.Proofs.Sorting
import TypedLambda.Proofs.Ty.Order

namespace TypedLambda

/-!
# Free occurrences

What occurs free in a term can be read off its nameless form, where it is all
that has kept its name. So alpha-equivalent terms have the same free
occurrences. The free variables are these occurrences listed in a linear order,
and terms with the same free variables list them alike.
-/

namespace Identifier

/-- Identifiers are compared by name first. -/
theorem precedes_iff {left right : Identifier} :
    left.precedes right = true ↔
      left.name = right.name ∧ left.ty.precedes right.ty = true ∨
        left.name ≠ right.name ∧ Sorting.namePrecedes left.name right.name = true := by
  unfold precedes
  split <;> simp_all

theorem precedes_total (left right : Identifier) :
    left.precedes right = true ∨ right.precedes left = true := by
  have names := Sorting.textPrecedes_total left.name.toList right.name.toList
  have types := Ty.precedes_total left.ty right.ty
  simp only [precedes_iff, Sorting.namePrecedes]
  grind

theorem precedes_antisymm
    {left right : Identifier}
    (first : left.precedes right = true)
    (second : right.precedes left = true) :
    left = right := by
  rw [precedes_iff] at first second
  rcases first with ⟨sameName, before⟩ | ⟨otherName, before⟩
  · rcases second with ⟨_, after⟩ | ⟨otherName, _⟩
    · obtain ⟨name, ty⟩ := left
      rw [Identifier.mk.injEq]
      exact ⟨sameName, Ty.precedes_antisymm before after⟩
    · exact (otherName sameName.symm).elim
  · rcases second with ⟨sameName, _⟩ | ⟨_, after⟩
    · exact (otherName sameName.symm).elim
    · exact (otherName (String.toList_inj.mp (Sorting.textPrecedes_antisymm before after))).elim

theorem precedes_trans
    {left middle right : Identifier}
    (first : left.precedes middle = true)
    (second : middle.precedes right = true) :
    left.precedes right = true := by
  rw [precedes_iff] at first second ⊢
  rcases first with ⟨firstName, firstType⟩ | ⟨firstOther, firstBefore⟩
  · rw [firstName]
    exact second.imp_left fun further =>
      ⟨further.1, Ty.precedes_trans firstType further.2⟩
  · rcases second with ⟨secondName, _⟩ | ⟨_, secondBefore⟩
    · exact .inr ⟨secondName ▸ firstOther, secondName ▸ firstBefore⟩
    · have before := Sorting.textPrecedes_trans firstBefore secondBefore
      refine .inr ⟨fun same => firstOther ?_, before⟩
      -- a name between two that are the same is that name, too
      rw [← same] at secondBefore
      exact String.toList_inj.mp (Sorting.textPrecedes_antisymm firstBefore secondBefore)

instance : Std.Total (precedes · · = true) :=
  ⟨precedes_total⟩

instance : IsTrans Identifier (precedes · · = true) :=
  ⟨fun _ _ _ => precedes_trans⟩

instance : Std.Antisymm (precedes · · = true) :=
  ⟨fun _ _ => precedes_antisymm⟩

end Identifier

namespace Term

mutual

/-- The identifiers that a nameless term has kept for variables, from left to right. -/
def Nameless.freeIdentifiers : Nameless → List Identifier
  | .bound _ _ => []
  | .free identifier => [identifier]
  | .const _ => []
  | .bind _ _ body => body.freeIdentifiers
  | .app function argument => function.freeIdentifiers ++ argument.freeIdentifiers
  | .tuple items => Nameless.freeIdentifiersInAll items
  | .neg operand => operand.freeIdentifiers
  | .connect _ left right => left.freeIdentifiers ++ right.freeIdentifiers
  | .equal left right => left.freeIdentifiers ++ right.freeIdentifiers
  | .relate _ left right => left.freeIdentifiers ++ right.freeIdentifiers

/-- The identifiers that the nameless terms in a list have kept for variables. -/
def Nameless.freeIdentifiersInAll : List Nameless → List Identifier
  | [] => []
  | term :: rest => term.freeIdentifiers ++ Nameless.freeIdentifiersInAll rest

end

@[simp] theorem Nameless.freeIdentifiersInAll_eq_flatMap (terms : List Nameless) :
    Nameless.freeIdentifiersInAll terms = terms.flatMap Nameless.freeIdentifiers := by
  induction terms with
  | nil =>
      rfl
  | cons term rest inductionHypothesis =>
      simp [Nameless.freeIdentifiersInAll, inductionHypothesis]

@[simp] theorem freeOccurrencesInAll_eq_flatMap
    (scope : List String)
    (terms : List Term) :
    freeOccurrencesInAll scope terms = terms.flatMap (freeOccurrences scope) := by
  induction terms with
  | nil =>
      rfl
  | cons term rest inductionHypothesis =>
      simp [freeOccurrencesInAll, inductionHypothesis]

/-- What occurs free in a term has kept its name in the nameless form. -/
theorem freeOccurrences_eq_freeIdentifiers
    (scope : List String)
    (term : Term) :
    term.freeOccurrences scope = (term.namelessIn scope).freeIdentifiers := by
  induction term generalizing scope with
  | var identifier =>
      rw [freeOccurrences, namelessIn]
      cases found : scope.idxOf? identifier.name with
      | none =>
          rw [if_neg (List.idxOf?_eq_none_iff.mp found), Nameless.freeIdentifiers]
      | some index =>
          have isBound : identifier.name ∈ scope := by
            by_contra absent
            rw [List.idxOf?_eq_none_iff.mpr absent] at found
            cases found
          rw [if_pos isBound, Nameless.freeIdentifiers]
  | const identifier =>
      rfl
  | bind binder bound body inductionHypothesis =>
      exact inductionHypothesis (bound.name :: scope)
  | tuple items inductionHypothesis =>
      simp only [freeOccurrences, freeOccurrencesInAll_eq_flatMap, namelessIn,
        namelessAllIn_eq_map, Nameless.freeIdentifiers,
        Nameless.freeIdentifiersInAll_eq_flatMap, List.flatMap_map]
      exact List.flatMap_congr fun item member => inductionHypothesis item member scope
  | neg operand inductionHypothesis =>
      exact inductionHypothesis scope
  | app _ _ firstHypothesis secondHypothesis
  | connect _ _ _ firstHypothesis secondHypothesis
  | equal _ _ firstHypothesis secondHypothesis
  | relate _ _ _ firstHypothesis secondHypothesis =>
      simp only [freeOccurrences, namelessIn, Nameless.freeIdentifiers, firstHypothesis,
        secondHypothesis]

/-- The names that occur free are those of the free variables that nothing outside binds. -/
theorem exists_mem_freeOccurrences_iff
    {scope : List String}
    {term : Term}
    {name : String} :
    (∃ identifier ∈ term.freeOccurrences scope, identifier.name = name) ↔
      term.hasFree name = true ∧ name ∉ scope := by
  induction term generalizing scope with
  | var identifier =>
      simp only [freeOccurrences, hasFree, decide_eq_true_eq]
      split <;> grind
  | const identifier =>
      simp [freeOccurrences, hasFree]
  | bind binder bound body inductionHypothesis =>
      simp only [freeOccurrences, hasFree, inductionHypothesis, List.mem_cons, Bool.and_eq_true,
        bne_iff_ne]
      grind
  | tuple items inductionHypothesis =>
      simp only [freeOccurrences, freeOccurrencesInAll_eq_flatMap, hasFree, anyHasFree_eq_any,
        List.mem_flatMap, List.any_eq_true]
      grind
  | neg operand inductionHypothesis =>
      exact inductionHypothesis
  | app _ _ firstHypothesis secondHypothesis
  | connect _ _ _ firstHypothesis secondHypothesis
  | equal _ _ firstHypothesis secondHypothesis
  | relate _ _ _ firstHypothesis secondHypothesis =>
      simp only [freeOccurrences, hasFree, List.mem_append, or_and_right, exists_or,
        firstHypothesis, secondHypothesis, Bool.or_eq_true]

/-- Alpha-equivalent terms have the same free occurrences, whatever is bound outside. -/
theorem AlphaEq.freeOccurrences_eq
    {left right : Term}
    (equivalent : AlphaEq left right)
    (scope : List String) :
    left.freeOccurrences scope = right.freeOccurrences scope := by
  rw [freeOccurrences_eq_freeIdentifiers, freeOccurrences_eq_freeIdentifiers,
    equivalent.namelessIn_eq]

/-- A binder binds no occurrence of a variable with a name that is not free. -/
theorem freeOccurrences_of_absent
    {term : Term}
    {name : String}
    (absent : term.hasFree name = false) :
    term.freeOccurrences [name] = term.freeOccurrences [] := by
  rw [freeOccurrences_eq_freeIdentifiers, freeOccurrences_eq_freeIdentifiers]
  apply congrArg
  apply namelessIn_congr
  intro other free
  have different : name ≠ other := by
    rintro rfl
    simp [absent] at free
  simp [List.idxOf?_cons, different]

@[simp] theorem mem_freeVariables_iff
    {identifier : Identifier}
    {term : Term} :
    identifier ∈ term.freeVariables ↔ identifier ∈ term.freeOccurrences [] :=
  Sorting.mem_listing

/-- Terms list their free variables alike if these are the same. -/
theorem freeVariables_eq_iff {left right : Term} :
    left.freeVariables = right.freeVariables ↔
      ∀ identifier, identifier ∈ left.freeVariables ↔ identifier ∈ right.freeVariables := by
  simp only [mem_freeVariables_iff]
  exact Sorting.listing_eq_iff

end Term

end TypedLambda
