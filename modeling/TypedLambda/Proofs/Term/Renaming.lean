import TypedLambda.Conversion.Substitution
import TypedLambda.Proofs.Term.Parts
import TypedLambda.Term.Names

namespace TypedLambda.Term

/-!
# Renaming free variables and erasing types

`rename` gives the free occurrences of a variable another name and leaves
their types alone; it is the change of names on which alpha equivalence
rests. `mapTypes` changes the types of all identifiers and nothing else, and
`eraseTypes` makes all types the same. The lemmas say how these functions
agree with free names, occurring names and substitution.
-/

attribute [simp] substituteAll_eq_map instantiateAll_eq_map

section Lists

attribute [local simp] hasFree anyHasFree nameOccurrences nameOccurrencesInAll

@[simp] theorem anyHasFree_eq_any (name : String) (terms : List Term) :
    anyHasFree name terms = terms.any (hasFree name) := by
  induction terms with
  | nil =>
      rfl
  | cons term rest inductionHypothesis =>
      simp [inductionHypothesis]

@[simp] theorem nameOccurrencesInAll_eq_flatMap (terms : List Term) :
    nameOccurrencesInAll terms = terms.flatMap nameOccurrences := by
  induction terms with
  | nil =>
      rfl
  | cons term rest inductionHypothesis =>
      simp [inductionHypothesis]

end Lists

/-- A name that is free in a term occurs in it. -/
theorem mem_nameOccurrences_of_hasFree
    {name : String}
    {term : Term}
    (free : term.hasFree name = true) :
    name ∈ term.nameOccurrences := by
  induction term with
  | var identifier =>
      simp_all [hasFree, nameOccurrences]
  | const identifier =>
      simp [hasFree] at free
  | bind binder bound body inductionHypothesis =>
      simp only [hasFree, Bool.and_eq_true] at free
      exact List.mem_cons_of_mem _ (inductionHypothesis free.2)
  | tuple items inductionHypothesis =>
      simp only [hasFree, anyHasFree_eq_any, List.any_eq_true] at free
      obtain ⟨item, member, free⟩ := free
      simp only [nameOccurrences, nameOccurrencesInAll_eq_flatMap,
        List.mem_flatMap]
      exact ⟨item, member, inductionHypothesis item member free⟩
  | neg operand inductionHypothesis =>
      exact inductionHypothesis free
  | app _ _ firstHypothesis secondHypothesis
  | connect _ _ _ firstHypothesis secondHypothesis
  | equal _ _ firstHypothesis secondHypothesis
  | relate _ _ _ firstHypothesis secondHypothesis =>
      simp only [hasFree, Bool.or_eq_true] at free
      simp only [nameOccurrences, List.mem_append]
      exact free.imp firstHypothesis secondHypothesis

/-- A name that is free in a term is that of one of its identifiers. -/
theorem exists_identifier_of_hasFree
    {name : String}
    {term : Term}
    (free : term.hasFree name = true) :
    ∃ identifier ∈ term.identifiers, identifier.name = name := by
  induction term with
  | var identifier =>
      exact ⟨identifier, by simp [identifiers], by simpa [hasFree] using free⟩
  | const identifier =>
      simp [hasFree] at free
  | bind binder bound body inductionHypothesis =>
      simp only [hasFree, Bool.and_eq_true] at free
      obtain ⟨identifier, mentioned, named⟩ := inductionHypothesis free.2
      exact ⟨identifier, List.mem_cons_of_mem bound mentioned, named⟩
  | tuple items inductionHypothesis =>
      simp only [hasFree, anyHasFree_eq_any, List.any_eq_true] at free
      obtain ⟨item, member, free⟩ := free
      obtain ⟨identifier, mentioned, named⟩ :=
        inductionHypothesis item member free
      exact ⟨identifier,
        by
          rw [identifiers, identifiersInAll_eq_flatMap, List.mem_flatMap]
          exact ⟨item, member, mentioned⟩, named⟩
  | neg operand inductionHypothesis =>
      exact inductionHypothesis free
  | app _ _ firstHypothesis secondHypothesis
  | connect _ _ _ firstHypothesis secondHypothesis
  | equal _ _ firstHypothesis secondHypothesis
  | relate _ _ _ firstHypothesis secondHypothesis =>
      simp only [hasFree, Bool.or_eq_true] at free
      simp only [identifiers, List.mem_append]
      rcases free with inFirst | inSecond
      · obtain ⟨identifier, mentioned, named⟩ := firstHypothesis inFirst
        exact ⟨identifier, .inl mentioned, named⟩
      · obtain ⟨identifier, mentioned, named⟩ := secondHypothesis inSecond
        exact ⟨identifier, .inr mentioned, named⟩

mutual

/-- Give the free occurrences of a variable another name. -/
def rename (old new : String) : Term → Term
  | .var identifier =>
      if identifier.name = old then .var ⟨new, identifier.ty⟩ else .var identifier
  | .const identifier => .const identifier
  | .bind binder bound body =>
      if bound.name = old then
        .bind binder bound body
      else
        .bind binder bound (rename old new body)
  | .app function argument => .app (rename old new function) (rename old new argument)
  | .tuple items => .tuple (renameAll old new items)
  | .neg term => .neg (rename old new term)
  | .connect connective left right =>
      .connect connective (rename old new left) (rename old new right)
  | .equal left right => .equal (rename old new left) (rename old new right)
  | .relate relation left right =>
      .relate relation (rename old new left) (rename old new right)

/-- Give the free occurrences of a variable another name in every term of a list. -/
def renameAll (old new : String) : List Term → List Term
  | [] => []
  | term :: rest => rename old new term :: renameAll old new rest

end

section Rename

attribute [local simp] rename renameAll

@[simp] theorem renameAll_eq_map (old new : String) (terms : List Term) :
    renameAll old new terms = terms.map (rename old new) := by
  induction terms with
  | nil =>
      rfl
  | cons term rest inductionHypothesis =>
      simp [inductionHypothesis]

end Rename

mutual

/-- Change the types of all identifiers, bound, free and constant. -/
def mapTypes (change : Ty → Ty) : Term → Term
  | .var identifier => .var ⟨identifier.name, change identifier.ty⟩
  | .const identifier => .const ⟨identifier.name, change identifier.ty⟩
  | .bind binder bound body =>
      .bind binder ⟨bound.name, change bound.ty⟩ (body.mapTypes change)
  | .app function argument => .app (function.mapTypes change) (argument.mapTypes change)
  | .tuple items => .tuple (mapTypesInAll change items)
  | .neg term => .neg (term.mapTypes change)
  | .connect connective left right =>
      .connect connective (left.mapTypes change) (right.mapTypes change)
  | .equal left right => .equal (left.mapTypes change) (right.mapTypes change)
  | .relate relation left right =>
      .relate relation (left.mapTypes change) (right.mapTypes change)

/-- Change the types of all identifiers in every term of a list. -/
def mapTypesInAll (change : Ty → Ty) : List Term → List Term
  | [] => []
  | term :: rest => term.mapTypes change :: mapTypesInAll change rest

end

section MapTypes

attribute [local simp] mapTypes mapTypesInAll

@[simp] theorem mapTypesInAll_eq_map (change : Ty → Ty) (terms : List Term) :
    mapTypesInAll change terms = terms.map (mapTypes change) := by
  induction terms with
  | nil =>
      rfl
  | cons term rest inductionHypothesis =>
      simp [inductionHypothesis]

end MapTypes

/-- A term without its types: every identifier has the type of the empty tuple. -/
def eraseTypes (term : Term) : Term :=
  term.mapTypes fun _ => .prod []

@[simp] theorem nameOccurrences_mapTypes
    (change : Ty → Ty)
    (term : Term) :
    (term.mapTypes change).nameOccurrences = term.nameOccurrences := by
  induction term with
  | tuple items inductionHypothesis =>
      have same :
          items.map (nameOccurrences ∘ mapTypes change) =
            items.map nameOccurrences :=
        List.map_congr_left inductionHypothesis
      simpa [mapTypes, nameOccurrences, List.flatMap_def] using
        congrArg List.flatten same
  | _ =>
      simp_all [mapTypes, nameOccurrences]

/-- Two changes of types in a row are one change. -/
theorem mapTypes_mapTypes
    (outer inner : Ty → Ty)
    (term : Term) :
    (term.mapTypes inner).mapTypes outer = term.mapTypes (outer ∘ inner) := by
  induction term with
  | tuple items inductionHypothesis =>
      simp only [mapTypes, mapTypesInAll_eq_map, List.map_map,
        Term.tuple.injEq]
      exact List.map_congr_left inductionHypothesis
  | _ =>
      simp_all [mapTypes]

theorem mapTypes_id (term : Term) : term.mapTypes id = term := by
  induction term with
  | tuple items inductionHypothesis =>
      simp only [mapTypes, mapTypesInAll_eq_map, Term.tuple.injEq]
      exact (List.map_congr_left inductionHypothesis).trans (List.map_id _)
  | _ =>
      simp_all [mapTypes]

/-- Changes of types that agree on the identifiers do the same. -/
theorem mapTypes_congr
    {first second : Ty → Ty}
    {term : Term}
    (same : ∀ identifier ∈ term.identifiers, first identifier.ty = second identifier.ty) :
    term.mapTypes first = term.mapTypes second := by
  induction term with
  | tuple items inductionHypothesis =>
      simp only [mapTypes, mapTypesInAll_eq_map, Term.tuple.injEq]
      refine List.map_congr_left fun item isItem =>
        inductionHypothesis item isItem fun identifier mentioned => same identifier ?_
      rw [identifiers, identifiersInAll_eq_flatMap, List.mem_flatMap]
      exact ⟨item, isItem, mentioned⟩
  | _ =>
      simp_all [mapTypes, identifiers]

theorem identifiers_mapTypes (change : Ty → Ty) (term : Term) :
    (term.mapTypes change).identifiers =
      term.identifiers.map fun identifier => ⟨identifier.name, change identifier.ty⟩ := by
  induction term with
  | tuple items inductionHypothesis =>
      simp only [mapTypes, identifiers, mapTypesInAll_eq_map, identifiersInAll_eq_flatMap,
        List.flatMap_def, List.map_map, List.map_flatten]
      exact congrArg List.flatten (List.map_congr_left inductionHypothesis)
  | _ =>
      simp_all [mapTypes, identifiers]

/-- Instantiation changes types by the substitution. -/
theorem instantiate_eq_mapTypes
    (substitution : Ty.Substitution)
    (term : Term) :
    term.instantiate substitution = term.mapTypes substitution.apply := by
  induction term with
  | tuple items inductionHypothesis =>
      simp only [instantiate, mapTypes, instantiateAll_eq_map,
        mapTypesInAll_eq_map, Term.tuple.injEq]
      exact List.map_congr_left inductionHypothesis
  | _ =>
      simp_all [instantiate, mapTypes, Identifier.instantiate]

/-- A change of types goes through a substitution. -/
theorem mapTypes_substitute
    (change : Ty → Ty)
    (name : String)
    (replacement term : Term) :
    (substitute name replacement term).mapTypes change =
      substitute name (replacement.mapTypes change) (term.mapTypes change) := by
  induction term with
  | tuple items inductionHypothesis =>
      simp only [substitute, mapTypes, substituteAll_eq_map,
        mapTypesInAll_eq_map, List.map_map, Term.tuple.injEq]
      exact List.map_congr_left inductionHypothesis
  | var identifier =>
      by_cases same : identifier.name = name <;>
        simp [substitute, mapTypes, same]
  | bind binder bound body inductionHypothesis =>
      by_cases same : bound.name = name <;>
        simp [substitute, mapTypes, same, inductionHypothesis]
  | _ =>
      simp_all [substitute, mapTypes]

/-- Without types, putting a variable in the place of another one renames it. -/
theorem eraseTypes_substitute_var
    (old new : String)
    (ty : Ty)
    (term : Term) :
    (substitute old (.var ⟨new, ty⟩) term).eraseTypes =
      term.eraseTypes.rename old new := by
  unfold eraseTypes
  induction term with
  | tuple items inductionHypothesis =>
      simp only [substitute, rename, mapTypes, substituteAll_eq_map,
        renameAll_eq_map, mapTypesInAll_eq_map, List.map_map,
        Term.tuple.injEq]
      exact List.map_congr_left inductionHypothesis
  | var identifier =>
      by_cases same : identifier.name = old <;>
        simp [substitute, rename, mapTypes, same]
  | bind binder bound body inductionHypothesis =>
      by_cases same : bound.name = old <;>
        simp [substitute, rename, mapTypes, same, inductionHypothesis]
  | _ =>
      simp_all [substitute, rename, mapTypes]

/-- Instantiation is invisible once types are erased. -/
@[simp] theorem eraseTypes_instantiate
    (substitution : Ty.Substitution)
    (term : Term) :
    (term.instantiate substitution).eraseTypes = term.eraseTypes := by
  rw [instantiate_eq_mapTypes]
  exact mapTypes_mapTypes _ _ term

/-- Erasing types goes through a substitution. -/
theorem eraseTypes_substitute
    (name : String)
    (replacement term : Term) :
    (substitute name replacement term).eraseTypes =
      substitute name replacement.eraseTypes term.eraseTypes :=
  mapTypes_substitute _ name replacement term

/-- Nothing is replaced in a term where the name is not free. -/
theorem substitute_eq_self
    {name : String}
    {replacement term : Term}
    (absent : term.hasFree name = false) :
    substitute name replacement term = term := by
  induction term with
  | tuple items inductionHypothesis =>
      simp only [hasFree, anyHasFree_eq_any, List.any_eq_false] at absent
      have same :
          items.map (substitute name replacement) = items.map id :=
        List.map_congr_left fun item member =>
          inductionHypothesis item member (by simpa using absent item member)
      simpa [substitute] using same
  | bind binder bound body inductionHypothesis =>
      by_cases same : bound.name = name
      · simp [substitute, same]
      · simp_all [substitute, hasFree]
  | _ =>
      simp_all [substitute, hasFree]

/-- What is free after a substitution was free before, or it is free in what was put in. -/
theorem hasFree_of_hasFree_substitute
    {name other : String}
    {replacement term : Term}
    (free : (substitute name replacement term).hasFree other = true) :
    replacement.hasFree other = true ∨ other ≠ name ∧ term.hasFree other = true := by
  induction term with
  | var identifier =>
      rw [substitute] at free
      split at free
      · exact .inl free
      · next different =>
          simp only [hasFree, decide_eq_true_eq] at free ⊢
          exact .inr ⟨free ▸ different, free⟩
  | const identifier =>
      simp [substitute, hasFree] at free
  | bind binder bound body inductionHypothesis =>
      rw [substitute] at free
      simp only [hasFree, Bool.and_eq_true, bne_iff_ne]
      split at free
      · next isBound =>
          simp only [hasFree, Bool.and_eq_true, bne_iff_ne] at free
          exact .inr ⟨fun same => free.1 (isBound.trans same.symm), free⟩
      · simp only [hasFree, Bool.and_eq_true, bne_iff_ne] at free
        exact (inductionHypothesis free.2).imp_right fun inBody =>
          ⟨inBody.1, free.1, inBody.2⟩
  | tuple items inductionHypothesis =>
      simp only [substitute, substituteAll_eq_map, hasFree, anyHasFree_eq_any,
        List.any_map, List.any_eq_true] at free ⊢
      obtain ⟨item, member, free⟩ := free
      exact (inductionHypothesis item member free).imp_right fun inItem =>
        ⟨inItem.1, item, member, inItem.2⟩
  | neg operand inductionHypothesis =>
      exact inductionHypothesis free
  | app _ _ firstHypothesis secondHypothesis
  | connect _ _ _ firstHypothesis secondHypothesis
  | equal _ _ firstHypothesis secondHypothesis
  | relate _ _ _ firstHypothesis secondHypothesis =>
      simp only [substitute, hasFree, Bool.or_eq_true] at free ⊢
      rcases free with inFirst | inSecond
      · exact (firstHypothesis inFirst).imp_right fun inside => ⟨inside.1, .inl inside.2⟩
      · exact (secondHypothesis inSecond).imp_right fun inside => ⟨inside.1, .inr inside.2⟩

/-- Names after a renaming are the new one and those from before. -/
theorem mem_nameOccurrences_rename
    {old new name : String}
    {term : Term}
    (occurs : name ∈ (term.rename old new).nameOccurrences) :
    name = new ∨ name ∈ term.nameOccurrences := by
  induction term with
  | var identifier =>
      by_cases same : identifier.name = old <;>
        simp_all [rename, nameOccurrences]
  | const identifier =>
      exact .inr occurs
  | bind binder bound body inductionHypothesis =>
      by_cases same : bound.name = old
      · rw [rename, if_pos same] at occurs
        exact .inr occurs
      · rw [rename, if_neg same, nameOccurrences, List.mem_cons] at occurs
        rcases occurs with isBound | inBody
        · exact .inr (isBound ▸ List.mem_cons_self)
        · exact (inductionHypothesis inBody).imp_right
            (List.mem_cons_of_mem _)
  | tuple items inductionHypothesis =>
      simp only [rename, renameAll_eq_map, nameOccurrences,
        nameOccurrencesInAll_eq_flatMap, List.mem_flatMap, List.mem_map] at occurs ⊢
      obtain ⟨_, ⟨item, member, rfl⟩, occurs⟩ := occurs
      exact (inductionHypothesis item member occurs).imp_right
        fun inItem => ⟨item, member, inItem⟩
  | neg operand inductionHypothesis =>
      exact inductionHypothesis occurs
  | app _ _ firstHypothesis secondHypothesis
  | connect _ _ _ firstHypothesis secondHypothesis
  | equal _ _ firstHypothesis secondHypothesis
  | relate _ _ _ firstHypothesis secondHypothesis =>
      simp only [rename, nameOccurrences, List.mem_append] at occurs ⊢
      rcases occurs with inFirst | inSecond
      · exact (firstHypothesis inFirst).imp_right .inl
      · exact (secondHypothesis inSecond).imp_right .inr

/-- The same holds if a variable takes the place of another one, whatever its type is. -/
theorem mem_nameOccurrences_substitute_var
    {old new name : String}
    {ty : Ty}
    {term : Term}
    (occurs : name ∈ (substitute old (.var ⟨new, ty⟩) term).nameOccurrences) :
    name = new ∨ name ∈ term.nameOccurrences := by
  have inErased :
      name ∈ (term.eraseTypes.rename old new).nameOccurrences := by
    rw [← eraseTypes_substitute_var old new ty, eraseTypes,
      nameOccurrences_mapTypes]
    exact occurs
  have before := mem_nameOccurrences_rename inErased
  rwa [eraseTypes, nameOccurrences_mapTypes] at before

/-- Renaming keeps the size. -/
@[simp] theorem size_rename
    (old new : String)
    (term : Term) :
    (term.rename old new).size = term.size := by
  induction term with
  | var identifier =>
      by_cases same : identifier.name = old <;>
        simp [rename, size, same]
  | bind binder bound body inductionHypothesis =>
      by_cases same : bound.name = old <;>
        simp [rename, size, same, inductionHypothesis]
  | tuple items inductionHypothesis =>
      simp only [rename, renameAll_eq_map, size, sizeOfAll_map inductionHypothesis]
  | _ =>
      simp_all [rename, size]

/-- A fresh name is the given one followed by primes. -/
theorem freshName_eq_append_primes
    (used : List String)
    (name : String) :
    ∃ count, (freshName used name).toList =
      name.toList ++ List.replicate count '\x27' := by
  fun_induction freshName used name with
  | case1 used name taken inductionHypothesis =>
      obtain ⟨count, spelled⟩ := inductionHypothesis
      refine ⟨count + 1, ?_⟩
      rw [spelled, String.toList_append, List.append_assoc,
        List.replicate_succ]
      rfl
  | case2 used name free =>
      exact ⟨0, by simp⟩

/-- A fresh name is none of the used ones. -/
theorem freshName_notMem
    (used : List String)
    (name : String) :
    freshName used name ∉ used := by
  fun_induction freshName used name with
  | case1 used name taken inductionHypothesis =>
      intro member
      obtain ⟨count, spelled⟩ :=
        freshName_eq_append_primes (used.erase name) (name ++ "'")
      have longer :
          freshName (used.erase name) (name ++ "'") ≠ name := by
        intro same
        have lengths := congrArg List.length spelled
        rw [same] at lengths
        simp at lengths
      exact inductionHypothesis ((List.mem_erase_of_ne longer).mpr member)
  | case2 used name free =>
      exact free

/-- The order in which used names are given does not matter. -/
theorem freshName_eq_of_perm
    {used others : List String}
    (perm : used.Perm others)
    (name : String) :
    freshName used name = freshName others name := by
  fun_induction freshName used name generalizing others with
  | case1 used name taken inductionHypothesis =>
      rw [freshName.eq_def others, if_pos (perm.mem_iff.mp taken)]
      exact inductionHypothesis (perm.erase name)
  | case2 used name free =>
      rw [freshName.eq_def others, if_neg fun taken => free (perm.mem_iff.mpr taken)]

end TypedLambda.Term
