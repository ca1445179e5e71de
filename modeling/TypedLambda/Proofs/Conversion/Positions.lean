import TypedLambda.Proofs.Conversion.LeftmostRedex

namespace TypedLambda

/-!
# Positions in terms

A position tells which child to go down to at each node, the children being
counted from the left. It says the same as the frames around a place, but it can
be compared: in lexicographic order a node comes before what is below it, and
what is below a child comes before what is below the children to its right. This
is the order in which a term is gone through from the root downwards and from
left to right.
-/

namespace Term

/-- The term at a position. -/
def partAt : Term → List Nat → Option Term
  | term, [] => some term
  | term, index :: below => term.children[index]?.bind fun child => child.partAt below

/-- Change every child, given its index; the node itself stays as it is. -/
def mapChildren (change : Nat → Term → Term) : Term → Term
  | .var identifier => .var identifier
  | .const identifier => .const identifier
  | .bind binder bound body => .bind binder bound (change 0 body)
  | .app function argument => .app (change 0 function) (change 1 argument)
  | .tuple items => .tuple (items.mapIdx change)
  | .neg operand => .neg (change 0 operand)
  | .connect connective left right => .connect connective (change 0 left) (change 1 right)
  | .equal left right => .equal (change 0 left) (change 1 right)
  | .relate relation left right => .relate relation (change 0 left) (change 1 right)

/-- Put a replacement at a position. On the way to it no other child is changed. -/
def replaceAt : Term → List Nat → Term → Term
  | _, [], replacement => replacement
  | term, index :: below, replacement =>
      term.mapChildren fun other child =>
        if other = index then child.replaceAt below replacement else child

/-- The identifier that the outermost constructor carries. -/
def ownIdentifier? : Term → Option Identifier
  | .var identifier => some identifier
  | .const identifier => some identifier
  | .bind _ bound _ => some bound
  | _ => none

/-- The outermost constructor with all that it carries but the children. -/
def root (term : Term) : Form × Option Identifier :=
  (term.form, term.ownIdentifier?)

/-- A term consists of its root and its children. -/
theorem eq_of_root_eq_of_children_eq
    {left right : Term}
    (sameRoot : left.root = right.root)
    (sameChildren : left.children = right.children) :
    left = right := by
  cases left <;> cases right <;> simp_all [root, form, ownIdentifier?, children]

/-- The children are changed in the order in which they are listed. -/
theorem children_mapChildren (change : Nat → Term → Term) (term : Term) :
    (term.mapChildren change).children = term.children.mapIdx change := by
  cases term <;> simp [mapChildren, children]

theorem root_mapChildren (change : Nat → Term → Term) (term : Term) :
    (term.mapChildren change).root = term.root := by
  cases term <;> rfl

end Term

namespace Frame

/-- The index of the hole among the children. -/
def index (frame : Frame) : Nat :=
  frame.before.length

/-- The terms to the right of the hole. -/
def after : Frame → List Term
  | .bind _ _ => []
  | .function operand => [operand]
  | .argument _ => []
  | .item _ after => after
  | .neg => []
  | .connectLeft _ right => [right]
  | .connectRight _ _ => []
  | .equalLeft right => [right]
  | .equalRight _ => []
  | .relateLeft _ right => [right]
  | .relateRight _ _ => []

theorem children_fill (frame : Frame) (term : Term) :
    (frame.fill term).children = frame.before ++ term :: frame.after := by
  cases frame <;> rfl

theorem root_fill (frame : Frame) (term other : Term) :
    (frame.fill term).root = (frame.fill other).root := by
  cases frame <;> rfl

theorem children_fill_index (frame : Frame) (term : Term) :
    (frame.fill term).children[frame.index]? = some term := by
  rw [children_fill, index, List.getElem?_append_right (Nat.le_refl _), Nat.sub_self]
  rfl

/-- Beside the hole the children do not depend on what is in it. -/
theorem children_fill_of_ne
    {frame : Frame}
    {other : Nat}
    (beside : other ≠ frame.index)
    (term replacement : Term) :
    (frame.fill replacement).children[other]? = (frame.fill term).children[other]? := by
  rw [children_fill, children_fill]
  unfold index at beside
  grind

/-- A change of the child in the hole changes nothing else. -/
theorem mapChildren_fill (frame : Frame) (change : Term → Term) (term : Term) :
    ((frame.fill term).mapChildren fun other child =>
        if other = frame.index then change child else child) =
      frame.fill (change term) := by
  apply Term.eq_of_root_eq_of_children_eq
  · rw [Term.root_mapChildren]
    exact frame.root_fill _ _
  · rw [Term.children_mapChildren]
    apply List.ext_getElem?
    intro other
    rw [List.getElem?_mapIdx]
    by_cases isHole : other = frame.index
    · subst isHole
      simp [children_fill_index]
    · simp [isHole, children_fill_of_ne isHole term (change term)]

end Frame

namespace Context

/-- The position of a place is told by the indices of the holes above it. -/
def position (context : Context) : List Nat :=
  context.map Frame.index

@[simp] theorem position_cons (frame : Frame) (context : Context) :
    position (frame :: context) = frame.index :: context.position :=
  rfl

/-- What is put into a place stands at its position. -/
theorem partAt_position (context : Context) (term : Term) :
    (context.fill term).partAt context.position = some term := by
  induction context with
  | nil =>
      rfl
  | cons frame context inductionHypothesis =>
      rw [fill_cons, position_cons, Term.partAt, frame.children_fill_index, Option.bind_some,
        inductionHypothesis]

/-- To put something at a position is to put it into the place with that position. -/
theorem replaceAt_position (context : Context) (term replacement : Term) :
    (context.fill term).replaceAt context.position replacement = context.fill replacement := by
  induction context with
  | nil =>
      rfl
  | cons frame context inductionHypothesis =>
      rw [fill_cons, position_cons, Term.replaceAt, frame.mapChildren_fill, inductionHypothesis,
        fill_cons]

/-- Outside of a place nothing depends on what stands in it. -/
theorem map_root_partAt_fill
    {context : Context}
    {other : List Nat}
    (outside : ¬context.position <+: other)
    (term replacement : Term) :
    ((context.fill replacement).partAt other).map Term.root =
      ((context.fill term).partAt other).map Term.root := by
  induction context generalizing other with
  | nil =>
      exact (outside List.nil_prefix).elim
  | cons frame context inductionHypothesis =>
      cases other with
      | nil =>
          exact congrArg some (frame.root_fill _ _)
      | cons index below =>
          rw [fill_cons, fill_cons, Term.partAt, Term.partAt]
          by_cases isHole : index = frame.index
          · subst isHole
            rw [frame.children_fill_index, frame.children_fill_index]
            refine inductionHypothesis fun inside => outside ?_
            exact List.cons_prefix_cons.mpr ⟨rfl, inside⟩
          · rw [Frame.children_fill_of_ne isHole (Context.fill context term)]

end Context

namespace Term

/-- What stands at a position fills the frames around it to the whole term. -/
theorem exists_fill_of_partAt
    {term part : Term}
    {position : List Nat}
    (isPart : term.partAt position = some part) :
    ∃ context : Context, context.fill part = term := by
  induction position generalizing term with
  | nil =>
      cases isPart
      exact ⟨[], rfl⟩
  | cons index below inductionHypothesis =>
      obtain ⟨child, isChild, inChild⟩ := Option.bind_eq_some_iff.mp isPart
      obtain ⟨frame, rfl⟩ := mem_children_iff.mp (List.mem_of_getElem? isChild)
      obtain ⟨context, rfl⟩ := inductionHypothesis inChild
      exact ⟨frame :: context, rfl⟩

/--
A term results from another one by putting a replacement at a position: this is
what stands there, and at each position that is not there or below, the two
terms have the same root, or both have nothing.
-/
structure Replaced (position : List Nat) (replacement term result : Term) : Prop where
  there : result.partAt position = some replacement
  elsewhere :
    ∀ other, ¬position <+: other →
      (result.partAt other).map root = (term.partAt other).map root

end Term

/-- Another term in a place replaces what stood there, and nothing else. -/
theorem Context.replaced (context : Context) (term replacement : Term) :
    Term.Replaced context.position replacement (context.fill term) (context.fill replacement) :=
  ⟨context.partAt_position replacement,
    fun _ outside => Context.map_root_partAt_fill outside term replacement⟩

end TypedLambda
