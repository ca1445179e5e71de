import TypedLambda.Proofs.Meaning.EarlyReduction
import TypedLambda.Proofs.Term.FreeOccurrences

namespace TypedLambda

/-!
# The leaves in a meaning

The meaning of a tree is built from the terms at its leaves, each used once and
left as it is. Either one term is applied to another one, or two terms are put
below a new binder and applied to its variable. As no leaf below the new binder
mentions the name of its variable, nothing is captured, and what is free in the
meaning is what is free in the leaves.
-/

namespace Term

/-- A term is built from some leaves, each of them used once, from left to right. -/
inductive BuiltFrom : List Term → Term → Prop where
  /-- A leaf is built from itself. -/
  | leaf (term : Term) : BuiltFrom [term] term
  /-- A term is applied to another one. -/
  | apply
      {leaves otherLeaves : List Term}
      {function argument : Term} :
      BuiltFrom leaves function →
      BuiltFrom otherLeaves argument →
      BuiltFrom (leaves ++ otherLeaves) (.app function argument)
  /-- Two terms hold of the variable of a binder whose name occurs in none of their leaves. -/
  | intersect
      {leaves otherLeaves : List Term}
      {left right : Term}
      (common : Identifier) :
      BuiltFrom leaves left →
      BuiltFrom otherLeaves right →
      (∀ leaf ∈ leaves ++ otherLeaves, common.name ∉ leaf.nameOccurrences) →
      BuiltFrom (leaves ++ otherLeaves)
        (.bind .lambda common
          (.connect .conjunction (.app left (.var common)) (.app right (.var common))))

/-- A name that occurs in none of the leaves is not free in a term with their free occurrences. -/
theorem hasFree_eq_false_of_leaves
    {leaves : List Term}
    {term : Term}
    {name : String}
    (sameFree : term.freeOccurrences [] = leaves.flatMap (freeOccurrences []))
    (fresh : ∀ leaf ∈ leaves, name ∉ leaf.nameOccurrences) :
    term.hasFree name = false := by
  rw [← Bool.not_eq_true]
  intro free
  obtain ⟨identifier, occurs, rfl⟩ :=
    exists_mem_freeOccurrences_iff.mpr ⟨free, List.not_mem_nil⟩
  rw [sameFree, List.mem_flatMap] at occurs
  obtain ⟨leaf, isLeaf, inLeaf⟩ := occurs
  have freeInLeaf := (exists_mem_freeOccurrences_iff.mp ⟨identifier, inLeaf, rfl⟩).1
  exact fresh leaf isLeaf (mem_nameOccurrences_of_hasFree freeInLeaf)

namespace BuiltFrom

variable {leaves : List Term} {term : Term}

/-- The leaves have been left as they are, and so their names are there. -/
theorem nameOccurrences_subset
    (built : BuiltFrom leaves term)
    {leaf : Term}
    (isLeaf : leaf ∈ leaves) :
    leaf.nameOccurrences ⊆ term.nameOccurrences := by
  induction built with
  | leaf other =>
      rw [List.mem_singleton.mp isLeaf]
      exact List.Subset.refl _
  | apply _ _ functionHypothesis argumentHypothesis =>
      rcases List.mem_append.mp isLeaf with inFunction | inArgument
      · exact List.subset_append_of_subset_left _ (functionHypothesis inFunction)
      · exact List.subset_append_of_subset_right _ (argumentHypothesis inArgument)
  | intersect common _ _ _ leftHypothesis rightHypothesis =>
      intro name mentioned
      simp only [nameOccurrences, List.mem_cons, List.mem_append]
      rcases List.mem_append.mp isLeaf with inLeft | inRight
      · exact .inr (.inl (.inl (leftHypothesis inLeft mentioned)))
      · exact .inr (.inr (.inl (rightHypothesis inRight mentioned)))

/-- What is free in the leaves, and nothing else, is free in what is built from them. -/
theorem freeOccurrences_eq (built : BuiltFrom leaves term) :
    term.freeOccurrences [] = leaves.flatMap (freeOccurrences []) := by
  induction built with
  | leaf other =>
      simp
  | apply _ _ functionHypothesis argumentHypothesis =>
      rw [freeOccurrences, functionHypothesis, argumentHypothesis, List.flatMap_append]
  | intersect common _ _ fresh leftHypothesis rightHypothesis =>
      obtain ⟨freshInLeft, freshInRight⟩ := List.forall_mem_append.mp fresh
      have inLeft :=
        freeOccurrences_of_absent (hasFree_eq_false_of_leaves leftHypothesis freshInLeft)
      have inRight :=
        freeOccurrences_of_absent (hasFree_eq_false_of_leaves rightHypothesis freshInRight)
      simp [freeOccurrences, inLeft, inRight, leftHypothesis, rightHypothesis]

end BuiltFrom

/-- However two sisters are combined, the leaves of both are used. -/
theorem exists_builtFrom_manner
    (manner : Manner)
    {leaves otherLeaves : List Term}
    {left right : Term}
    (ofLeft : BuiltFrom leaves left)
    (ofRight : BuiltFrom otherLeaves right) :
    ∃ used : List Term,
      used.Perm (leaves ++ otherLeaves) ∧ BuiltFrom used (manner.term left right) := by
  cases manner with
  | leftApplied =>
      exact ⟨_, .refl _, ofLeft.apply ofRight⟩
  | rightApplied =>
      exact ⟨_, List.perm_append_comm, ofRight.apply ofLeft⟩
  | intersected element =>
      have fresh := freshName_notMem (left.nameOccurrences ++ right.nameOccurrences) "x"
      rw [List.mem_append, not_or] at fresh
      refine ⟨_, .refl _, ofLeft.intersect _ ofRight fun leaf isLeaf mentioned => ?_⟩
      rcases List.mem_append.mp isLeaf with inLeft | inRight
      · exact fresh.1 (ofLeft.nameOccurrences_subset inLeft mentioned)
      · exact fresh.2 (ofRight.nameOccurrences_subset inRight mentioned)

end Term

namespace SyntaxTree

/-- A meaning is built from all leaves of its tree. -/
theorem exists_builtFrom_of_interpret
    {tree : SyntaxTree}
    {meaning : Meaning}
    (interpreted : tree.interpret = .ok meaning) :
    ∃ used : List Term, used.Perm tree.leaves ∧ Term.BuiltFrom used meaning.term := by
  fun_induction interpret tree generalizing meaning with
  | case1 term ty typed =>
      cases interpreted
      exact ⟨_, .refl _, .leaf term⟩
  | case2 term reason untyped =>
      cases interpreted
  | case3 only inductionHypothesis =>
      obtain ⟨inner, found, same⟩ := Outcome.bind_eq_ok_iff.mp interpreted
      cases same
      simpa [leaves] using inductionHypothesis found
  | case4 left right leftHypothesis rightHypothesis =>
      obtain ⟨leftMeaning, ofLeft, interpreted⟩ := Outcome.bind_eq_ok_iff.mp interpreted
      obtain ⟨rightMeaning, ofRight, combined⟩ := Outcome.bind_eq_ok_iff.mp interpreted
      obtain ⟨_, _, manner, _, _, _, rfl⟩ := Term.combine_eq_ok_iff.mp combined
      obtain ⟨leftUsed, leftPerm, leftBuilt⟩ := leftHypothesis ofLeft
      obtain ⟨rightUsed, rightPerm, rightBuilt⟩ := rightHypothesis ofRight
      obtain ⟨used, perm, built⟩ := Term.exists_builtFrom_manner manner leftBuilt rightBuilt
      have allUsed : used.Perm (left.leaves ++ right.leaves) :=
        perm.trans (leftPerm.append rightPerm)
      exact ⟨used, by simpa [leaves] using allUsed, built⟩
  | case5 =>
      cases interpreted

/--
The meaning of a tree is built from its leaves, each used once and unchanged,
by application and by intersections below a binder with a new name. The free
variables of the meaning are those of the leaves.
-/
theorem interpret_builtFrom
    {tree : SyntaxTree}
    {meaning : Meaning}
    (interpreted : tree.interpret = .ok meaning) :
    (∃ used : List Term, used.Perm tree.leaves ∧ Term.BuiltFrom used meaning.term) ∧
      ∀ identifier,
        identifier ∈ meaning.term.freeVariables ↔
          ∃ leaf ∈ tree.leaves, identifier ∈ leaf.freeVariables := by
  obtain ⟨used, perm, built⟩ := exists_builtFrom_of_interpret interpreted
  refine ⟨⟨used, perm, built⟩, fun identifier => ?_⟩
  simp only [Term.mem_freeVariables_iff, built.freeOccurrences_eq, List.mem_flatMap,
    perm.mem_iff]

/-- The sets λy.R(x,y), with a free variable x, and Q as sisters, and P as their sister. -/
def nestedSets : SyntaxTree :=
  branch [
    branch [
      leaf (.bind .lambda ⟨"y", .entity⟩
        (.app (.const ⟨"R", .predicate (.prod [.entity, .entity])⟩)
          (.tuple [.var ⟨"x", .entity⟩, .var ⟨"y", .entity⟩]))),
      leaf (.const ⟨"Q", .predicate .entity⟩)],
    leaf (.const ⟨"P", .predicate .entity⟩)]

/-- Neither of the two new binders is called x, so that x stays free in the meaning. -/
theorem interpret_builtFrom_nestedSets :
    ∃ meaning,
      nestedSets.interpret = .ok meaning ∧
        meaning.rule = .predicateModification ∧
        (∃ used : List Term, used.Perm nestedSets.leaves ∧ Term.BuiltFrom used meaning.term) ∧
        ∀ identifier,
          identifier ∈ meaning.term.freeVariables ↔ identifier = ⟨"x", .entity⟩ := by
  have typedConstant (name : String) :
      Term.Typed .empty (.const ⟨name, .predicate .entity⟩) (.predicate .entity) :=
    Term.Typed.const_iff.mpr ⟨rfl, rfl⟩
  have typedAbstraction :
      Term.Typed .empty
        (.bind .lambda ⟨"y", .entity⟩
          (.app (.const ⟨"R", .predicate (.prod [.entity, .entity])⟩)
            (.tuple [.var ⟨"x", .entity⟩, .var ⟨"y", .entity⟩])))
        (.predicate .entity) := by
    refine ⟨by decide, ?_, ?_⟩
    · simp [Term.AnnotatedIn, Term.allAnnotatedIn_iff_forall, Scope.empty]
    · simp [Term.binderRule_lambda_iff, Ty.predicate]
  have ofConstant (name : String) :=
    interpret_leaf_eq_ok (typedConstant name).typeOf_eq_ok
  have ofInner :=
    interpret_pair_eq_ok_iff.mpr
      ⟨_, _, interpret_leaf_eq_ok typedAbstraction.typeOf_eq_ok, ofConstant "Q",
      (typedAbstraction.combine_eq_ok_iff (typedConstant "Q")).mpr
        ⟨_, manner?_predicate_predicate, rfl⟩⟩
  have typedInner := typedAbstraction.intersection (typedConstant "Q")
  have ofTree : nestedSets.interpret = .ok _ :=
    interpret_pair_eq_ok_iff.mpr ⟨_, _, ofInner, ofConstant "P",
      (typedInner.combine_eq_ok_iff (typedConstant "P")).mpr
        ⟨_, manner?_predicate_predicate, rfl⟩⟩
  obtain ⟨built, free_iff⟩ := interpret_builtFrom ofTree
  refine ⟨_, ofTree, rfl, built, fun identifier => (free_iff identifier).trans ?_⟩
  simp [nestedSets, leaves, Term.freeOccurrences]

end SyntaxTree

end TypedLambda
