import TypedLambda.Proofs.Conversion.BoundNames
import TypedLambda.Proofs.Meaning.Manner
import TypedLambda.Proofs.Normalisation.Termination

namespace TypedLambda

/-!
# Reducing meanings early

The meaning of a tree is put together first and reduced afterwards. It could
as well be reduced at every node before it is handed up. A meaning keeps its
type when it is reduced, and the types decide how sisters are combined, so the
same nodes have a meaning, by the same rules. The order in which redexes are
contracted is another one, but by confluence the results are the same up to
the names of bound variables.
-/

open Relation (ReflTransGen)

/-- Why a tree has no meaning that is reduced at every node. -/
inductive ReductionError where
  /-- The meanings of a node's children cannot be composed. -/
  | composition (reason : CompositionError)
  /-- A meaning cannot be reduced to the end. -/
  | evaluation (reason : EvaluationError)

/-- A meaning by the same rule with the term reduced to the end. -/
def Meaning.evaluate
    (meaning : Meaning)
    (limit : Nat) :
    Except ReductionError Meaning := do
  let term ← (meaning.term.evaluate limit).mapError .evaluation
  return ⟨meaning.rule, term⟩

namespace SyntaxTree

/-- The meaning of a tree, reduced at every node within the node's own limit. -/
def interpretReduced (limits : SyntaxTree → Nat) : SyntaxTree → Except ReductionError Meaning
  | .leaf term =>
      match term.typeOf with
      | .ok _ => Meaning.evaluate ⟨.nonBranching, term⟩ (limits (.leaf term))
      | .error reason => .error (.composition (.illTyped reason))
  | .branch [only] => do
      let meaning ← only.interpretReduced limits
      Meaning.evaluate ⟨.nonBranching, meaning.term⟩ (limits (.branch [only]))
  | .branch [left, right] => do
      let leftMeaning ← left.interpretReduced limits
      let rightMeaning ← right.interpretReduced limits
      let meaning ← (leftMeaning.term.combine rightMeaning.term).mapError .composition
      meaning.evaluate (limits (.branch [left, right]))
  | .branch children => .error (.composition (.arity children.length))
termination_by structural tree => tree

mutual

/-- The terms at the leaves, from left to right. -/
def leaves : SyntaxTree → List Term
  | .leaf term => [term]
  | .branch children => leavesOfAll children

/-- The terms at the leaves of some trees. -/
def leavesOfAll : List SyntaxTree → List Term
  | [] => []
  | tree :: rest => tree.leaves ++ leavesOfAll rest

end

mutual

/-- The tree itself and the trees below it. -/
def nodes : SyntaxTree → List SyntaxTree
  | .leaf term => [.leaf term]
  | .branch children => .branch children :: nodesOfAll children

/-- The nodes of some trees. -/
def nodesOfAll : List SyntaxTree → List SyntaxTree
  | [] => []
  | tree :: rest => tree.nodes ++ nodesOfAll rest

end

end SyntaxTree

namespace Term

/-- Both terms have the type, and the late one can be reduced to the early one. -/
structure ReducesAt (ty : Ty) (late early : Term) : Prop where
  lateTyped : Typed .empty late ty
  earlyTyped : Typed .empty early ty
  lateUnmarked : late.Unmarked
  earlyUnmarked : early.Unmarked
  reduces : ReflTransGen Nameless.Reduces late.nameless early.nameless

/-- A run of a typed term reduces the nameless term. -/
theorem Derives.reduces_star
    {term last : Term}
    {steps : List Step}
    {ty : Ty}
    (run : Derives term steps last)
    (typed : Typed .empty term ty) :
    ReflTransGen Nameless.Reduces term.nameless last.nameless := by
  induction run with
  | done term =>
      exact .refl
  | @step term last step steps stepped _ inductionHypothesis =>
      have later := inductionHypothesis (typed.converts ⟨step.kind, stepped⟩)
      cases kind : step.kind with
      | alpha =>
          rwa [typed.nameless_eq_of_alpha stepped kind] at later
      | beta =>
          exact .head (typed.reduces_of_beta stepped kind) later

/-- A typed term is evaluated to a term of the type that it can be reduced to. -/
theorem ReducesAt.exists_evaluate
    {ty : Ty}
    {late early : Term}
    (reducesAt : ReducesAt ty late early) :
    ∃ enough result,
      (∀ limit, enough ≤ limit → early.evaluate limit = .ok result) ∧
        result.RedexFree ∧
        ReducesAt ty late result := by
  obtain ⟨steps, result, run, free⟩ := reducesAt.earlyTyped.exists_derives
  have typed : Typed .empty result ty :=
    (run.forall_result (Typed .empty · ty) (fun _ step before stepped =>
      before.converts ⟨step.kind, stepped⟩) reducesAt.earlyTyped).1
  exact ⟨steps.length, result,
    fun limit enough => evaluate_eq_ok_iff.mpr ⟨steps, enough, run, free⟩, free,
    { lateTyped := reducesAt.lateTyped
      earlyTyped := typed
      lateUnmarked := reducesAt.lateUnmarked
      earlyUnmarked := run.unmarked reducesAt.earlyUnmarked
      reduces := reducesAt.reduces.trans (run.reduces_star reducesAt.earlyTyped) }⟩

/-- Whether it has been reduced before or not, a term is evaluated to the same up to bound names. -/
theorem ReducesAt.exists_alphaEquivalent
    {ty : Ty}
    {late early : Term}
    (reducesAt : ReducesAt ty late early) :
    ∃ enough, ∀ limit, enough ≤ limit →
      ∃ lateResult earlyResult,
        late.evaluate limit = .ok lateResult ∧
          early.evaluate limit = .ok earlyResult ∧
          lateResult.alphaEquivalent earlyResult = true := by
  have itself : ReducesAt ty late late :=
    ⟨reducesAt.lateTyped, reducesAt.lateTyped, reducesAt.lateUnmarked, reducesAt.lateUnmarked,
      .refl⟩
  obtain ⟨enough, lateResult, lateEvaluated, lateFree, fromLate⟩ := itself.exists_evaluate
  obtain ⟨enoughToo, earlyResult, earlyEvaluated, earlyFree, fromEarly⟩ :=
    reducesAt.exists_evaluate
  have same : lateResult.nameless = earlyResult.nameless :=
    Nameless.eq_of_normal fromLate.reduces fromEarly.reduces lateFree.normal earlyFree.normal
  have equivalent :=
    (fromLate.earlyUnmarked.alphaEquivalent_iff fromEarly.earlyUnmarked).mpr same
  exact ⟨max enough enoughToo, fun limit large =>
    ⟨lateResult, earlyResult, lateEvaluated limit (Nat.le_trans (Nat.le_max_left _ _) large),
      earlyEvaluated limit (Nat.le_trans (Nat.le_max_right _ _) large), equivalent⟩⟩

/-- Sisters that can be reduced are combined in the same manner before and afterwards. -/
theorem ReducesAt.manner
    {leftType rightType : Ty}
    {left leftEarly right rightEarly : Term}
    {manner : Manner}
    (ofLeft : ReducesAt leftType left leftEarly)
    (ofRight : ReducesAt rightType right rightEarly)
    (decided : leftType.manner? rightType = some manner) :
    ∃ ty, ReducesAt ty (manner.term left right) (manner.term leftEarly rightEarly) := by
  obtain ⟨ty, typed⟩ :=
    exists_typed_manner (ofLeft.lateTyped.hasType.ground ofLeft.lateTyped.monomorphic)
      (ofRight.lateTyped.hasType.ground ofRight.lateTyped.monomorphic) decided
  have unmarked
      {first second : Term}
      (ofFirst : first.Unmarked)
      (ofSecond : second.Unmarked) :
      (manner.term first second).Unmarked := fun name free =>
    (hasFree_of_hasFree_manner free).elim (ofFirst name) (ofSecond name)
  exact ⟨ty, typed _ _ _ ofLeft.lateTyped ofRight.lateTyped,
    typed _ _ _ ofLeft.earlyTyped ofRight.earlyTyped,
    unmarked ofLeft.lateUnmarked ofRight.lateUnmarked,
    unmarked ofLeft.earlyUnmarked ofRight.earlyUnmarked,
    reduces_star_manner manner ofLeft.reduces ofRight.reduces⟩

end Term

namespace SyntaxTree

/-- Every leaf has a type, and it is regular. -/
def HasRegularLeaves (tree : SyntaxTree) : Prop :=
  ∀ term ∈ tree.leaves, term.Regular ∧ ∃ ty, term.typeOf = .ok ty

/--
The tree has a meaning, and it has one by the same rule that is reduced at
every node, if the limits are large enough; or it has none of either.
-/
inductive Agrees (tree : SyntaxTree) (enough : Nat) : Prop where
  | interpreted
      {late early : Meaning}
      {ty : Ty}
      (ofLate : tree.interpret = .ok late)
      (ofEarly : ∀ limits, (∀ node, enough ≤ limits node) →
        tree.interpretReduced limits = .ok early)
      (sameRule : early.rule = late.rule)
      (reducesAt : late.term.ReducesAt ty early.term)
  | refused
      (noLate : ∀ late, tree.interpret ≠ .ok late)
      (noEarly : ∀ limits, (∀ node, enough ≤ limits node) →
        ∀ early, tree.interpretReduced limits ≠ .ok early)

/-- The meaning that a node hands up is evaluated if the limit is large enough. -/
theorem exists_evaluate_meaning
    {ty : Ty}
    {late : Term}
    (meaning : Meaning)
    (reducesAt : late.ReducesAt ty meaning.term) :
    ∃ enough early,
      (∀ limit, enough ≤ limit → meaning.evaluate limit = .ok early) ∧
        early.rule = meaning.rule ∧
        late.ReducesAt ty early.term := by
  obtain ⟨enough, result, evaluated, _, after⟩ := reducesAt.exists_evaluate
  refine ⟨enough, ⟨meaning.rule, result⟩, fun limit large => ?_, rfl, after⟩
  rw [Meaning.evaluate, evaluated limit large]
  rfl

/-- Limits that are large enough may be larger. -/
theorem Agrees.mono
    {tree : SyntaxTree}
    {enough more : Nat}
    (agrees : tree.Agrees enough)
    (larger : enough ≤ more) :
    tree.Agrees more := by
  cases agrees with
  | interpreted ofLate ofEarly sameRule reducesAt =>
      exact .interpreted ofLate
        (fun limits large => ofEarly limits fun node => Nat.le_trans larger (large node))
        sameRule reducesAt
  | refused noLate noEarly =>
      exact .refused noLate fun limits large =>
        noEarly limits fun node => Nat.le_trans larger (large node)

/-- A leaf has its own term as its meaning. -/
theorem interpret_leaf_eq_ok
    {term : Term}
    {ty : Ty}
    (typed : term.typeOf = .ok ty) :
    (leaf term).interpret = .ok ⟨.nonBranching, term⟩ := by
  simp only [interpret, typed]

/-- A leaf with a type is its own meaning. -/
theorem exists_agrees_leaf
    {term : Term}
    {ty : Ty}
    (regular : term.Regular)
    (typed : term.typeOf = .ok ty) :
    ∃ enough, (leaf term).Agrees enough := by
  have isTyped : Term.Typed .empty term ty :=
    ⟨regular.monomorphic, regular.annotated,
      (Term.typeOf_eq_ok_iff regular.monomorphic).mp typed⟩
  have itself : term.ReducesAt ty term :=
    ⟨isTyped, isTyped, regular.unmarked, regular.unmarked, .refl⟩
  obtain ⟨enough, early, evaluated, sameRule, reducesAt⟩ :=
    exists_evaluate_meaning ⟨.nonBranching, term⟩ itself
  have ofEarly (limits : SyntaxTree → Nat) (large : ∀ node, enough ≤ limits node) :
      (leaf term).interpretReduced limits = .ok early := by
    simp only [interpretReduced, typed]
    exact evaluated _ (large _)
  exact ⟨enough, .interpreted (interpret_leaf_eq_ok typed) ofEarly sameRule reducesAt⟩

/-- A node with an only child agrees if the child does. -/
theorem Agrees.exists_only
    {only : SyntaxTree}
    {enough : Nat}
    (agrees : only.Agrees enough) :
    ∃ more, (branch [only]).Agrees more := by
  cases agrees with
  | @interpreted late early ty ofLate ofEarly sameRule reducesAt =>
      obtain ⟨enoughHere, result, evaluated, ruleHere, after⟩ :=
        exists_evaluate_meaning ⟨.nonBranching, early.term⟩ reducesAt
      have ofBranch : (branch [only]).interpret = .ok ⟨.nonBranching, late.term⟩ := by
        simp only [interpret, ofLate, Outcome.ok_bind]
        rfl
      have ofReduced
          (limits : SyntaxTree → Nat)
          (large : ∀ node, max enough enoughHere ≤ limits node) :
          (branch [only]).interpretReduced limits = .ok result := by
        rw [interpretReduced,
          ofEarly limits fun node => Nat.le_trans (Nat.le_max_left _ _) (large node)]
        exact evaluated _ (Nat.le_trans (Nat.le_max_right _ _) (large _))
      exact ⟨_, .interpreted ofBranch ofReduced ruleHere after⟩
  | refused noLate noEarly =>
      refine ⟨enough, .refused (fun late interpreted => ?_) fun limits large early reduced => ?_⟩
      · rw [interpret, Outcome.bind_eq_ok_iff] at interpreted
        obtain ⟨inner, ofChild, _⟩ := interpreted
        exact noLate inner ofChild
      · rw [interpretReduced, Outcome.bind_eq_ok_iff] at reduced
        obtain ⟨inner, ofChild, _⟩ := reduced
        exact noEarly limits large inner ofChild

/-- How a node with two children gets its meaning. -/
theorem interpret_pair_eq_ok_iff
    {left right : SyntaxTree}
    {meaning : Meaning} :
    (branch [left, right]).interpret = .ok meaning ↔
      ∃ leftMeaning rightMeaning,
        left.interpret = .ok leftMeaning ∧
          right.interpret = .ok rightMeaning ∧
          leftMeaning.term.combine rightMeaning.term = .ok meaning := by
  simp only [interpret, Outcome.bind_eq_ok_iff]
  grind

/-- How it gets the meaning that is reduced. -/
theorem interpretReduced_pair_eq_ok_iff
    {limits : SyntaxTree → Nat}
    {left right : SyntaxTree}
    {reduced : Meaning} :
    (branch [left, right]).interpretReduced limits = .ok reduced ↔
      ∃ leftMeaning rightMeaning meaning,
        left.interpretReduced limits = .ok leftMeaning ∧
          right.interpretReduced limits = .ok rightMeaning ∧
          leftMeaning.term.combine rightMeaning.term = .ok meaning ∧
          meaning.evaluate (limits (branch [left, right])) = .ok reduced := by
  simp only [interpretReduced, Outcome.bind_eq_ok_iff, Outcome.mapError_eq_ok_iff]
  grind

/-- A node with two children has no meaning of either sort if these cannot be combined. -/
theorem Agrees.of_not_combined
    {left right : SyntaxTree}
    {enough : Nat}
    (noLate :
      ∀ leftMeaning rightMeaning meaning,
        left.interpret = .ok leftMeaning → right.interpret = .ok rightMeaning →
          leftMeaning.term.combine rightMeaning.term ≠ .ok meaning)
    (noEarly :
      ∀ limits, (∀ node, enough ≤ limits node) → ∀ leftMeaning rightMeaning meaning,
        left.interpretReduced limits = .ok leftMeaning →
          right.interpretReduced limits = .ok rightMeaning →
            leftMeaning.term.combine rightMeaning.term ≠ .ok meaning) :
    (branch [left, right]).Agrees enough := by
  refine .refused (fun late interpreted => ?_) fun limits large early reduced => ?_
  · obtain ⟨_, _, ofLeft, ofRight, combined⟩ := interpret_pair_eq_ok_iff.mp interpreted
    exact noLate _ _ _ ofLeft ofRight combined
  · obtain ⟨_, _, _, ofLeft, ofRight, combined, _⟩ := interpretReduced_pair_eq_ok_iff.mp reduced
    exact noEarly limits large _ _ _ ofLeft ofRight combined

/-- Two children with meanings agree on whether and how they are combined. -/
theorem exists_agrees_of_interpreted
    {left right : SyntaxTree}
    {leftLate leftEarly rightLate rightEarly : Meaning}
    {leftType rightType : Ty}
    {enough : Nat}
    (leftOfLate : left.interpret = .ok leftLate)
    (leftOfEarly :
      ∀ limits, (∀ node, enough ≤ limits node) → left.interpretReduced limits = .ok leftEarly)
    (leftReduces : leftLate.term.ReducesAt leftType leftEarly.term)
    (rightOfLate : right.interpret = .ok rightLate)
    (rightOfEarly :
      ∀ limits, (∀ node, enough ≤ limits node) → right.interpretReduced limits = .ok rightEarly)
    (rightReduces : rightLate.term.ReducesAt rightType rightEarly.term) :
    ∃ more, (branch [left, right]).Agrees more := by
  have late_iff (meaning : Meaning) :
      leftLate.term.combine rightLate.term = .ok meaning ↔ _ :=
    leftReduces.lateTyped.combine_eq_ok_iff rightReduces.lateTyped
  have early_iff (meaning : Meaning) :
      leftEarly.term.combine rightEarly.term = .ok meaning ↔ _ :=
    leftReduces.earlyTyped.combine_eq_ok_iff rightReduces.earlyTyped
  cases decided : leftType.manner? rightType with
  | none =>
      refine ⟨enough, .of_not_combined ?_ ?_⟩
      · intro _ _ meaning ofLeft ofRight combined
        rw [leftOfLate] at ofLeft
        rw [rightOfLate] at ofRight
        cases ofLeft
        cases ofRight
        simp [late_iff, decided] at combined
      · intro limits large _ _ meaning ofLeft ofRight combined
        rw [leftOfEarly limits large] at ofLeft
        rw [rightOfEarly limits large] at ofRight
        cases ofLeft
        cases ofRight
        simp [early_iff, decided] at combined
  | some manner =>
      obtain ⟨ty, reducesAt⟩ := leftReduces.manner rightReduces decided
      obtain ⟨enoughHere, result, evaluated, sameRule, after⟩ :=
        exists_evaluate_meaning
          ⟨manner.rule, manner.term leftEarly.term rightEarly.term⟩ reducesAt
      have ofLate :=
        interpret_pair_eq_ok_iff.mpr
          ⟨_, _, leftOfLate, rightOfLate, (late_iff _).mpr ⟨manner, decided, rfl⟩⟩
      have ofEarly
          (limits : SyntaxTree → Nat)
          (large : ∀ node, max enough enoughHere ≤ limits node) :
          (branch [left, right]).interpretReduced limits = .ok result := by
        have largeBelow (node : SyntaxTree) : enough ≤ limits node :=
          Nat.le_trans (Nat.le_max_left _ _) (large node)
        exact interpretReduced_pair_eq_ok_iff.mpr
          ⟨_, _, _, leftOfEarly limits largeBelow, rightOfEarly limits largeBelow,
            (early_iff _).mpr ⟨manner, decided, rfl⟩,
            evaluated _ (Nat.le_trans (Nat.le_max_right _ _) (large _))⟩
      exact ⟨_, .interpreted ofLate ofEarly sameRule after⟩

/-- A node with two children agrees if both children do. -/
theorem Agrees.exists_pair
    {left right : SyntaxTree}
    {enough : Nat}
    (ofLeft : left.Agrees enough)
    (ofRight : right.Agrees enough) :
    ∃ more, (branch [left, right]).Agrees more := by
  cases ofLeft with
  | refused noLate noEarly =>
      exact ⟨enough, .of_not_combined (fun _ _ _ isLeft => (noLate _ isLeft).elim)
        fun limits large _ _ _ isLeft => (noEarly limits large _ isLeft).elim⟩
  | interpreted leftOfLate leftOfEarly _ leftReduces =>
      cases ofRight with
      | refused noLate noEarly =>
          exact ⟨enough, .of_not_combined (fun _ _ _ _ isRight => (noLate _ isRight).elim)
            fun limits large _ _ _ _ isRight => (noEarly limits large _ isRight).elim⟩
      | interpreted rightOfLate rightOfEarly _ rightReduces =>
          exact exists_agrees_of_interpreted leftOfLate leftOfEarly leftReduces
            rightOfLate rightOfEarly rightReduces

/-- Every tree with regular leaves agrees in this sense. -/
theorem exists_agrees
    (tree : SyntaxTree)
    (regular : tree.HasRegularLeaves) :
    ∃ enough, tree.Agrees enough := by
  fun_induction interpret tree with
  | case1 term ty typed =>
      obtain ⟨isRegular, _⟩ := regular term (by simp [leaves])
      exact exists_agrees_leaf isRegular typed
  | case2 term reason untyped =>
      obtain ⟨_, ty, typed⟩ := regular term (by simp [leaves])
      rw [untyped] at typed
      cases typed
  | case3 only inductionHypothesis =>
      obtain ⟨enough, agrees⟩ := inductionHypothesis fun term member =>
        regular term (by simp [leaves, leavesOfAll, member])
      exact agrees.exists_only
  | case4 left right leftHypothesis rightHypothesis =>
      obtain ⟨enough, ofLeft⟩ := leftHypothesis fun term member =>
        regular term (by simp [leaves, leavesOfAll, member])
      obtain ⟨enoughToo, ofRight⟩ := rightHypothesis fun term member =>
        regular term (by simp [leaves, leavesOfAll, member])
      exact Agrees.exists_pair (ofLeft.mono (Nat.le_max_left enough enoughToo))
        (ofRight.mono (Nat.le_max_right enough enoughToo))
  | case5 children notOne notTwo =>
      refine ⟨0, .refused (fun late interpreted => ?_) fun limits _ early reduced => ?_⟩
      · simp [interpret] at interpreted
      · simp [interpretReduced] at reduced

section Nodes

/-- A statement holds of every tree if it holds of leaves and nodes preserve it. -/
@[elab_as_elim]
theorem induction
    {motive : SyntaxTree → Prop}
    (leaf : ∀ term, motive (.leaf term))
    (branch : ∀ children, (∀ child ∈ children, motive child) → motive (.branch children))
    (tree : SyntaxTree) :
    motive tree :=
  @SyntaxTree.rec motive (fun children => ∀ child ∈ children, motive child) leaf branch
    (fun _ absent => by simp at absent)
    (fun _ _ headHolds tailHolds => List.forall_mem_cons.mpr ⟨headHolds, tailHolds⟩)
    tree

@[simp] theorem leavesOfAll_eq_flatMap (trees : List SyntaxTree) :
    leavesOfAll trees = trees.flatMap leaves := by
  induction trees with
  | nil =>
      rfl
  | cons tree rest inductionHypothesis =>
      simp [leavesOfAll, inductionHypothesis]

@[simp] theorem nodesOfAll_eq_flatMap (trees : List SyntaxTree) :
    nodesOfAll trees = trees.flatMap nodes := by
  induction trees with
  | nil =>
      rfl
  | cons tree rest inductionHypothesis =>
      simp [nodesOfAll, inductionHypothesis]

/-- The leaves of a node are leaves of the tree. -/
theorem mem_leaves_of_mem_nodes
    {tree node : SyntaxTree}
    (isNode : node ∈ tree.nodes)
    {term : Term}
    (isLeaf : term ∈ node.leaves) :
    term ∈ tree.leaves := by
  induction tree using induction with
  | leaf other =>
      simp only [nodes, List.mem_singleton] at isNode
      exact isNode ▸ isLeaf
  | branch children inductionHypothesis =>
      simp only [nodes, nodesOfAll_eq_flatMap, List.mem_cons, List.mem_flatMap] at isNode
      rcases isNode with rfl | ⟨child, member, below⟩
      · exact isLeaf
      · simp only [leaves, leavesOfAll_eq_flatMap, List.mem_flatMap]
        exact ⟨child, member, inductionHypothesis child member below⟩

end Nodes

/--
What reducing at every node comes to, within limits on the reductions there and
with so many steps being enough for a reduction at the end.
-/
structure ReducesAlike (tree : SyntaxTree) (limits : SyntaxTree → Nat) (enough : Nat) : Prop where
  /-- It does not matter for whether the tree has a meaning. -/
  interpreted_iff :
    (∃ late, tree.interpret = .ok late) ↔ ∃ early, tree.interpretReduced limits = .ok early
  /-- It does not matter for the rule either. -/
  sameRule :
    ∀ late early,
      tree.interpret = .ok late → tree.interpretReduced limits = .ok early →
        early.rule = late.rule
  /-- The meanings are evaluated to the same, up to the names of bound variables. -/
  sameResult :
    ∀ late early,
      tree.interpret = .ok late → tree.interpretReduced limits = .ok early →
        ∀ limit, enough ≤ limit →
          ∃ lateResult earlyResult,
            late.term.evaluate limit = .ok lateResult ∧
              early.term.evaluate limit = .ok earlyResult ∧
              lateResult.alphaEquivalent earlyResult = true

/-- A tree that agrees reduces alike. -/
theorem Agrees.exists_reducesAlike
    {tree : SyntaxTree}
    {enough : Nat}
    (agrees : tree.Agrees enough) :
    ∃ more, ∀ limits, (∀ node, more ≤ limits node) → ∀ most, more ≤ most →
      tree.ReducesAlike limits most := by
  cases agrees with
  | @interpreted late early _ ofLate ofEarly sameRule reducesAt =>
      obtain ⟨enoughToo, evaluated⟩ := reducesAt.exists_alphaEquivalent
      refine ⟨max enough enoughToo, fun limits large most larger => ?_⟩
      have isEarly := ofEarly limits fun node => Nat.le_trans (Nat.le_max_left _ _) (large node)
      refine ⟨⟨fun _ => ⟨early, isEarly⟩, fun _ => ⟨late, ofLate⟩⟩, ?_, ?_⟩
      · intro otherLate otherEarly isLate isEarlyToo
        rw [ofLate] at isLate
        rw [isEarly] at isEarlyToo
        cases isLate
        cases isEarlyToo
        exact sameRule
      · intro otherLate otherEarly isLate isEarlyToo limit more
        rw [ofLate] at isLate
        rw [isEarly] at isEarlyToo
        cases isLate
        cases isEarlyToo
        exact evaluated limit (by omega)
  | refused noLate noEarly =>
      refine ⟨enough, fun limits large _ _ => ⟨⟨?_, ?_⟩, ?_, ?_⟩⟩
      · rintro ⟨late, isLate⟩
        exact (noLate late isLate).elim
      · rintro ⟨early, isEarly⟩
        exact (noEarly limits large early isEarly).elim
      · exact fun late _ isLate => (noLate late isLate).elim
      · exact fun late _ isLate => (noLate late isLate).elim

/--
Reducing early or late gives the same meaning. If every leaf has a type and is
regular, there is a number of steps that is enough: with no limit below it,
every node of the tree has a meaning that is reduced at all nodes below exactly
if it has one that is not, both come by the same rule, and both are evaluated
to the same term up to the names of bound variables.
-/
theorem interpretReduced_alike
    (tree : SyntaxTree)
    (regular : tree.HasRegularLeaves) :
    ∃ enough, ∀ limits, (∀ node, enough ≤ limits node) →
      ∀ node ∈ tree.nodes, node.ReducesAlike limits enough := by
  have each (node : SyntaxTree) (isNode : node ∈ tree.nodes) :
      ∃ enough, ∀ limits, (∀ other, enough ≤ limits other) → ∀ most, enough ≤ most →
        node.ReducesAlike limits most := by
    obtain ⟨_, agrees⟩ := exists_agrees node fun term isLeaf =>
      regular term (mem_leaves_of_mem_nodes isNode isLeaf)
    exact agrees.exists_reducesAlike
  generalize tree.nodes = trees at each
  suffices uniform :
      ∃ enough, ∀ limits, (∀ other, enough ≤ limits other) → ∀ most, enough ≤ most →
        ∀ node ∈ trees, node.ReducesAlike limits most by
    obtain ⟨enough, alike⟩ := uniform
    exact ⟨enough, fun limits large => alike limits large enough (Nat.le_refl enough)⟩
  induction trees with
  | nil =>
      exact ⟨0, by simp⟩
  | cons node rest inductionHypothesis =>
      obtain ⟨enough, alike⟩ := each node (by simp)
      obtain ⟨enoughToo, alikeToo⟩ :=
        inductionHypothesis fun other member => each other (by simp [member])
      refine ⟨max enough enoughToo, fun limits large most larger => ?_⟩
      exact List.forall_mem_cons.mpr
        ⟨alike limits (fun other => Nat.le_trans (Nat.le_max_left _ _) (large other)) most
            (Nat.le_trans (Nat.le_max_left _ _) larger),
          alikeToo limits (fun other => Nat.le_trans (Nat.le_max_right _ _) (large other)) most
            (Nat.le_trans (Nat.le_max_right _ _) larger)⟩

/-- The sets λx.P(x) and Q as sisters, and the entity a as a sister of both. -/
def entityInBoth : SyntaxTree :=
  branch [leaf (.const ⟨"a", .entity⟩),
    branch [
      leaf (.bind .lambda ⟨"x", .entity⟩
        (.app (.const ⟨"P", .predicate .entity⟩) (.var ⟨"x", .entity⟩))),
      leaf (.const ⟨"Q", .predicate .entity⟩)]]

/-- Two sets of entities are intersected. -/
theorem manner?_predicate_predicate :
    (Ty.predicate .entity).manner? (.predicate .entity) = some (.intersected .entity) := by
  have groundSet : (Ty.predicate .entity).Ground := rfl
  have refuses : (Ty.predicate .entity).accepts (.predicate .entity) = false := by
    rw [← Bool.not_eq_true, Ty.accepts_ground_iff groundSet groundSet]
    simp [Ty.predicate, Ty.entity]
  have common : (Ty.predicate .entity).commonElement? (.predicate .entity) = some .entity :=
    (Ty.commonElement?_ground_eq_some_iff groundSet groundSet).mpr ⟨rfl, rfl⟩
  simp [Ty.manner?, refuses, common]

/-- A set of entities on the right is applied to an entity on the left. -/
theorem manner?_entity_predicate :
    Ty.entity.manner? (.predicate .entity) = some .rightApplied := by
  have groundSet : (Ty.predicate .entity).Ground := rfl
  have groundEntity : Ty.entity.Ground := rfl
  have refuses : Ty.entity.accepts (.predicate .entity) = false := rfl
  have accepts : (Ty.predicate .entity).accepts .entity = true :=
    (Ty.accepts_ground_iff groundSet groundEntity).mpr ⟨.truth, rfl⟩
  simp [Ty.manner?, refuses, accepts]

/-- That a is in both sets comes out the same whether λx.P(x) is applied early or late. -/
theorem interpretReduced_alike_entityInBoth :
    ∃ late, entityInBoth.interpret = .ok late ∧
      late.rule = .functionApplication ∧
      ∃ enough, ∀ limits, (∀ node, enough ≤ limits node) →
        ∃ early, entityInBoth.interpretReduced limits = .ok early ∧
          early.rule = .functionApplication ∧
          ∀ limit, enough ≤ limit →
            ∃ lateResult earlyResult,
              late.term.evaluate limit = .ok lateResult ∧
                early.term.evaluate limit = .ok earlyResult ∧
                lateResult.alphaEquivalent earlyResult = true := by
  have typedEntity : Term.Typed .empty (.const ⟨"a", .entity⟩) .entity :=
    Term.Typed.const_iff.mpr ⟨rfl, rfl⟩
  have typedSet : Term.Typed .empty (.const ⟨"Q", .predicate .entity⟩) (.predicate .entity) :=
    Term.Typed.const_iff.mpr ⟨rfl, rfl⟩
  have typedAbstraction :
      Term.Typed .empty
        (.bind .lambda ⟨"x", .entity⟩
          (.app (.const ⟨"P", .predicate .entity⟩) (.var ⟨"x", .entity⟩)))
        (.predicate .entity) := by
    refine ⟨by decide, ?_, ?_⟩
    · simp [Term.AnnotatedIn]
    · simp [Term.binderRule_lambda_iff, Ty.predicate]
  have isRegular
      {term : Term}
      {ty : Ty}
      (typed : Term.Typed .empty term ty)
      (closed : ∀ name, term.hasFree name = false) :
      term.Regular ∧ ∃ ty, term.typeOf = .ok ty :=
    ⟨⟨typed.monomorphic, typed.annotated, fun name free => by simp [closed name] at free⟩,
      ty, (Term.typeOf_eq_ok_iff typed.monomorphic).mpr typed.hasType⟩
  have regular : entityInBoth.HasRegularLeaves := by
    simp only [HasRegularLeaves, entityInBoth, leaves, leavesOfAll, List.append_nil,
      List.cons_append, List.nil_append, List.forall_mem_cons]
    exact ⟨isRegular typedEntity (by simp [Term.hasFree]),
      isRegular typedAbstraction (by simp [Term.hasFree]),
      isRegular typedSet (by simp [Term.hasFree]), by simp⟩
  have ofLeaf
      {term : Term}
      {ty : Ty}
      (typed : Term.Typed .empty term ty) :
      (leaf term).interpret = .ok ⟨.nonBranching, term⟩ := by
    simp only [interpret, (Term.typeOf_eq_ok_iff typed.monomorphic).mpr typed.hasType]
  have ofSets :=
    interpret_pair_eq_ok_iff.mpr ⟨_, _, ofLeaf typedAbstraction, ofLeaf typedSet,
      (typedAbstraction.combine_eq_ok_iff typedSet).mpr ⟨_, manner?_predicate_predicate, rfl⟩⟩
  have typedSets := typedAbstraction.intersection typedSet
  have ofTree : entityInBoth.interpret = .ok _ :=
    interpret_pair_eq_ok_iff.mpr ⟨_, _, ofLeaf typedEntity, ofSets,
      (typedEntity.combine_eq_ok_iff typedSets).mpr ⟨_, manner?_entity_predicate, rfl⟩⟩
  obtain ⟨enough, alike⟩ := interpretReduced_alike entityInBoth regular
  refine ⟨_, ofTree, rfl, enough, fun limits large => ?_⟩
  have alikeHere := alike limits large entityInBoth (by simp [entityInBoth, nodes])
  obtain ⟨early, ofEarly⟩ := alikeHere.interpreted_iff.mp ⟨_, ofTree⟩
  exact ⟨early, ofEarly, alikeHere.sameRule _ _ ofTree ofEarly,
    alikeHere.sameResult _ _ ofTree ofEarly⟩

end SyntaxTree

end TypedLambda
