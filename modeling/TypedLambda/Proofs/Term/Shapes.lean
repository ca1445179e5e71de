import TypedLambda.Proofs.Alpha.Decision
import TypedLambda.Proofs.Reordering.Keys

namespace TypedLambda.Term

/-!
# Shapes of terms

The shape of a term is the tree of its operators and binders. All variables and
constants have become one and the same leaf, and no binder has a variable. The
key by which `operatorEquivalent` compares terms is the shape spelled out. It is
closed and never empty, so that a tuple of any number of parts can be taken
apart again, and no two shapes are spelled alike. Names and types do not come
into it, whatever they are.
-/

/-- A tree of operators and binders whose leaves are all alike. -/
inductive Shape where
  /-- A variable or a constant. -/
  | leaf
  /-- An operator or a binder above its parts. -/
  | node (form : Form) (parts : List Shape)

mutual

/-- The operators and binders of a term. -/
def shape : Term → Shape
  | .var _ => .leaf
  | .const _ => .leaf
  | .bind binder _ body => .node (.bind binder) [body.shape]
  | .app function argument => .node .app [function.shape, argument.shape]
  | .tuple items => .node .tuple (shapesOf items)
  | .neg operand => .node .neg [operand.shape]
  | .connect connective left right => .node (.connect connective) [left.shape, right.shape]
  | .equal left right => .node .equal [left.shape, right.shape]
  | .relate relation left right => .node (.relate relation) [left.shape, right.shape]

/-- The shapes of the terms in a list. -/
def shapesOf : List Term → List Shape
  | [] => []
  | term :: rest => term.shape :: shapesOf rest

end

@[simp] theorem shapesOf_eq_map (terms : List Term) :
    shapesOf terms = terms.map shape := by
  induction terms with
  | nil =>
      rfl
  | cons term rest inductionHypothesis =>
      simp [shapesOf, inductionHypothesis]

@[simp] theorem shapeKeys_eq_map (terms : List Term) :
    shapeKeys terms = terms.map shapeKey := by
  induction terms with
  | nil =>
      rfl
  | cons term rest inductionHypothesis =>
      simp [shapeKeys, inductionHypothesis]

namespace Shape

/-- A statement holds of every shape if it holds of the leaf and nodes preserve it. -/
@[induction_eliminator]
theorem induction
    {motive : Shape → Prop}
    (leaf : motive .leaf)
    (node : ∀ form parts, (∀ part ∈ parts, motive part) → motive (.node form parts))
    (shape : Shape) :
    motive shape :=
  @Shape.rec motive (fun parts => ∀ part ∈ parts, motive part) leaf node
    (fun _ absent => by simp at absent)
    (fun _ _ headHolds tailHolds => List.forall_mem_cons.mpr ⟨headHolds, tailHolds⟩)
    shape

mutual

/-- A shape spelled out: the word of each form and its parts in parentheses. -/
def key : Shape → List Char
  | .leaf => ['_']
  | .node form parts => keyed form.word (keysOf parts)

/-- The shapes in a list spelled out. -/
def keysOf : List Shape → List (List Char)
  | [] => []
  | shape :: rest => shape.key :: keysOf rest

end

@[simp] theorem keysOf_eq_map (shapes : List Shape) :
    keysOf shapes = shapes.map key := by
  induction shapes with
  | nil =>
      rfl
  | cons shape rest inductionHypothesis =>
      simp [keysOf, inductionHypothesis]

/-- The key of a node is its word with the keys of its parts in parentheses behind it. -/
theorem key_node
    (form : Form)
    (parts : List Shape) :
    (node form parts).key =
      form.word ++ ('(' :: [','].intercalate (parts.map key) ++ [')']) := by
  rw [key, keyed_eq, keysOf_eq_map]

theorem key_ne_nil (shape : Shape) : shape.key ≠ [] := by
  cases shape with
  | leaf =>
      exact List.cons_ne_nil _ _
  | node form parts =>
      rw [key_node]
      exact List.append_ne_nil_of_left_ne_nil form.word_ne_nil _

/-- Brackets match in every key, and commas stand between them. -/
theorem closed_key (shape : Shape) : Text.Closed shape.key := by
  induction shape with
  | leaf =>
      have isInner : Text.IsInner '_' := by
        decide
      exact Text.closed_of_forall_isInner (List.forall_mem_singleton.mpr isInner)
  | node form parts inductionHypothesis =>
      have wordClosed : Text.Closed form.word :=
        Text.closed_of_forall_isInner fun _ member => (Form.isInner_of_mem_word member).1
      have partsClosed : ∀ text ∈ parts.map key, Text.Closed text :=
        List.forall_mem_map.mpr inductionHypothesis
      rw [key_node]
      exact wordClosed.append (.enclose (Text.openAfter_intercalate partsClosed))

/-- A leaf is spelled otherwise than every node. -/
theorem key_leaf_ne_key_node
    (form : Form)
    (parts : List Shape) :
    leaf.key ≠ (node form parts).key := by
  intro same
  have bracket : '(' ∈ (node form parts).key := by
    simp [key_node]
  rw [← same] at bracket
  exact absurd bracket (by decide)

/-- Nodes that are spelled alike have the same form, and their parts are spelled alike. -/
theorem key_node_inj
    {form other : Form}
    {parts others : List Shape}
    (same : (node form parts).key = (node other others).key) :
    form = other ∧ parts.map key = others.map key := by
  rw [key_node, key_node] at same
  have noWord
      (texts : List (List Char)) :
      ∀ character ∈ ('(' :: [','].intercalate texts ++ [')']).head?,
        ¬Text.IsInner character := by
    intro character first
    have isBracket : '(' = character := by simpa using first
    rw [← isBracket]
    decide
  obtain ⟨words, enclosed⟩ :=
    append_inj_of_forall
      (fun _ member => (Form.isInner_of_mem_word member).1)
      (fun _ member => (Form.isInner_of_mem_word member).1)
      (noWord _) (noWord _) same
  have keysClosed (shapes : List Shape) :
      ∀ text ∈ shapes.map key, Text.Closed text ∧ text ≠ [] :=
    List.forall_mem_map.mpr fun shape _ => ⟨shape.closed_key, shape.key_ne_nil⟩
  exact ⟨Form.word_injective words,
    Text.intercalate_comma_inj (keysClosed parts) (keysClosed others)
      (List.cons.inj (List.append_cancel_right enclosed)).2⟩

/-- No two shapes are spelled alike. -/
theorem key_injective : Function.Injective key := by
  intro left
  induction left with
  | leaf =>
      intro right same
      cases right with
      | leaf =>
          rfl
      | node form parts =>
          exact (key_leaf_ne_key_node form parts same).elim
  | node form parts inductionHypothesis =>
      intro right same
      cases right with
      | leaf =>
          exact (key_leaf_ne_key_node form parts same.symm).elim
      | node other others =>
          obtain ⟨rfl, keys⟩ := key_node_inj same
          have partwise : List.Forall₂ (· = ·) parts others :=
            forall₂_of_map_eq keys fun part member other _ sameKey =>
              inductionHypothesis part member sameKey
          rw [List.forall₂_eq_eq_eq] at partwise
          rw [partwise]

end Shape

/-- What a term is compared by is its shape spelled out. -/
theorem shapeKey_eq_key_shape (term : Term) :
    term.shapeKey = term.shape.key := by
  induction term with
  | var identifier | const identifier =>
      rfl
  | bind binder bound body inductionHypothesis =>
      rw [shapeKey, shape, inductionHypothesis]
      rfl
  | neg operand inductionHypothesis =>
      rw [shapeKey, shape, inductionHypothesis]
      rfl
  | tuple items inductionHypothesis =>
      have keys : items.map shapeKey = (items.map shape).map Shape.key := by
        rw [List.map_map]
        exact List.map_congr_left inductionHypothesis
      rw [shapeKey, shape, Shape.key, shapeKeys_eq_map, shapesOf_eq_map, Shape.keysOf_eq_map,
        keys]
      rfl
  | app _ _ firstHypothesis secondHypothesis
  | connect _ _ _ firstHypothesis secondHypothesis
  | equal _ _ firstHypothesis secondHypothesis
  | relate _ _ _ firstHypothesis secondHypothesis =>
      rw [shapeKey, shape, firstHypothesis, secondHypothesis]
      rfl

/-- Renaming a variable keeps the shape. -/
theorem shape_rename
    (old new : String)
    (term : Term) :
    (term.rename old new).shape = term.shape := by
  induction term with
  | var identifier =>
      rw [rename]
      split <;> rfl
  | bind binder bound body inductionHypothesis =>
      rw [rename]
      split
      · rfl
      · simp only [shape, inductionHypothesis]
  | tuple items inductionHypothesis =>
      simp only [rename, renameAll_eq_map, shape, shapesOf_eq_map, List.map_map,
        Shape.node.injEq, true_and]
      exact List.map_congr_left inductionHypothesis
  | _ =>
      simp_all [rename, shape]

/-- The shape of a term with a hole is made from that of what fills it. -/
theorem shape_fill_congr
    (frame : Frame)
    {left right : Term}
    (same : left.shape = right.shape) :
    (frame.fill left).shape = (frame.fill right).shape := by
  cases frame <;> simp [Frame.fill, shape, same]

/-- The names of bound variables do not matter to the shape. -/
theorem AlphaEq.shape_eq
    {left right : Term}
    (equivalent : AlphaEq left right) :
    left.shape = right.shape := by
  induction equivalent with
  | refl term =>
      rfl
  | symm _ inductionHypothesis =>
      exact inductionHypothesis.symm
  | trans _ _ firstHypothesis secondHypothesis =>
      exact firstHypothesis.trans secondHypothesis
  | frame frame _ inductionHypothesis =>
      exact shape_fill_congr frame inductionHypothesis
  | rename binder bound new body _ =>
      simp only [shape, shape_rename]

/--
Two terms have the same operators and binders in the same places exactly if they
become the same tree when every variable and constant is replaced by one leaf
and binders lose their variables. This holds of all terms that differ in the
names of bound variables only.
-/
theorem operatorEquivalent_iff_shape_eq (left right : Term) :
    (left.operatorEquivalent right = true ↔ left.shape = right.shape) ∧
      (AlphaEq left right → left.operatorEquivalent right = true) := by
  have sameShape_iff : left.operatorEquivalent right = true ↔ left.shape = right.shape := by
    rw [operatorEquivalent, decide_eq_true_iff, shapeKey_eq_key_shape, shapeKey_eq_key_shape,
      Shape.key_injective.eq_iff]
  exact ⟨sameShape_iff, fun equivalent => sameShape_iff.mpr equivalent.shape_eq⟩

/-- A tuple of a tuple without items and a variable of the given name. -/
def emptyTupleAndVariable (name : String) : Term :=
  .tuple [.tuple [], .var ⟨name, .entity⟩]

/-- A tuple of a tuple of one item. -/
def nestedTuple : Term :=
  .tuple [.tuple [.var ⟨"x", .entity⟩]]

/--
Binders with other variables have the same shape, and so have terms with other
free variables. Where the items of a tuple are grouped otherwise, the shape is
another one.
-/
theorem operatorEquivalent_shadowingQuantifiers_siblingQuantifiers :
    AlphaEq shadowingQuantifiers siblingQuantifiers ∧
      shadowingQuantifiers.operatorEquivalent siblingQuantifiers = true ∧
      (emptyTupleAndVariable "x").operatorEquivalent (emptyTupleAndVariable "(,") = true ∧
      (emptyTupleAndVariable "x").operatorEquivalent nestedTuple = false := by
  have equivalent : AlphaEq shadowingQuantifiers siblingQuantifiers :=
    alphaEq_iff_nameless_eq.mpr rfl
  have differs : (emptyTupleAndVariable "x").shape ≠ nestedTuple.shape := by
    simp [emptyTupleAndVariable, nestedTuple, shape]
  refine ⟨equivalent, (operatorEquivalent_iff_shape_eq _ _).2 equivalent,
    (operatorEquivalent_iff_shape_eq _ _).1.mpr rfl, ?_⟩
  rw [← Bool.not_eq_true, (operatorEquivalent_iff_shape_eq _ _).1]
  exact differs

end TypedLambda.Term
