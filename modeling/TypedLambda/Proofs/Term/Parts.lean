import TypedLambda.Term.Basic

namespace TypedLambda.Term

/-!
# The parts of a term

The form of a term is its outermost constructor without the parts below it.
Further there are the identifiers that a term mentions, and its size, by which
recursions that do not follow the constructors one by one are seen to end.
-/

/-- A constructor of terms with its binder, connective or relation. -/
inductive Form where
  | var
  | const
  | bind (binder : Binder)
  | app
  | tuple
  | neg
  | connect (connective : Connective)
  | equal
  | relate (relation : SetRelation)
  deriving DecidableEq

/-- The constructor that a term is built with. -/
def form : Term → Form
  | .var _ => .var
  | .const _ => .const
  | .bind binder _ _ => .bind binder
  | .app _ _ => .app
  | .tuple _ => .tuple
  | .neg _ => .neg
  | .connect connective _ _ => .connect connective
  | .equal _ _ => .equal
  | .relate relation _ _ => .relate relation

/-- Two terms of the same form, which differ at most in what their constructors hold. -/
inductive SameForm : Term → Term → Prop where
  | var (identifier other : Identifier) :
      SameForm (.var identifier) (.var other)
  | const (identifier other : Identifier) :
      SameForm (.const identifier) (.const other)
  | bind
      (binder : Binder)
      (bound otherBound : Identifier)
      (body otherBody : Term) :
      SameForm (.bind binder bound body) (.bind binder otherBound otherBody)
  | app (function otherFunction argument otherArgument : Term) :
      SameForm (.app function argument) (.app otherFunction otherArgument)
  | tuple (items others : List Term) :
      SameForm (.tuple items) (.tuple others)
  | neg (operand other : Term) :
      SameForm (.neg operand) (.neg other)
  | connect
      (connective : Connective)
      (first otherFirst second otherSecond : Term) :
      SameForm (.connect connective first second)
        (.connect connective otherFirst otherSecond)
  | equal (first otherFirst second otherSecond : Term) :
      SameForm (.equal first second) (.equal otherFirst otherSecond)
  | relate
      (relation : SetRelation)
      (first otherFirst second otherSecond : Term) :
      SameForm (.relate relation first second)
        (.relate relation otherFirst otherSecond)

/-- Terms that are built with the same constructor may be taken apart together. -/
theorem sameForm_of_form_eq
    {left right : Term}
    (same : left.form = right.form) :
    SameForm left right := by
  cases left <;> cases right <;> cases same <;> constructor

mutual

/-- Every identifier in a term: variables, constants and bound variables. -/
def identifiers : Term → List Identifier
  | .var identifier => [identifier]
  | .const identifier => [identifier]
  | .bind _ bound body => bound :: body.identifiers
  | .app function argument => function.identifiers ++ argument.identifiers
  | .tuple items => identifiersInAll items
  | .neg operand => operand.identifiers
  | .connect _ left right => left.identifiers ++ right.identifiers
  | .equal left right => left.identifiers ++ right.identifiers
  | .relate _ left right => left.identifiers ++ right.identifiers

/-- The identifiers in every term of a list. -/
def identifiersInAll : List Term → List Identifier
  | [] => []
  | term :: rest => term.identifiers ++ identifiersInAll rest

end

section Identifiers

attribute [local simp] identifiers identifiersInAll

@[simp] theorem identifiersInAll_eq_flatMap (terms : List Term) :
    identifiersInAll terms = terms.flatMap identifiers := by
  induction terms with
  | nil =>
      rfl
  | cons term rest inductionHypothesis =>
      simp [inductionHypothesis]

end Identifiers

mutual

/-- The number of constructors of a term. -/
def size : Term → Nat
  | .var _ => 1
  | .const _ => 1
  | .bind _ _ body => body.size + 1
  | .app function argument => function.size + argument.size + 1
  | .tuple items => sizeOfAll items + 1
  | .neg operand => operand.size + 1
  | .connect _ left right => left.size + right.size + 1
  | .equal left right => left.size + right.size + 1
  | .relate _ left right => left.size + right.size + 1

/-- The number of constructors in a list of terms. -/
def sizeOfAll : List Term → Nat
  | [] => 0
  | term :: rest => term.size + sizeOfAll rest

end

/-- Every term has at least one constructor. -/
theorem size_pos (term : Term) : 0 < term.size := by
  cases term <;> simp [size]

/-- A change that keeps the size of every term in a list keeps their size together. -/
theorem sizeOfAll_map
    {change : Term → Term}
    {terms : List Term}
    (keeps : ∀ term ∈ terms, (change term).size = term.size) :
    sizeOfAll (terms.map change) = sizeOfAll terms := by
  induction terms with
  | nil =>
      rfl
  | cons term rest inductionHypothesis =>
      obtain ⟨first, others⟩ := List.forall_mem_cons.mp keeps
      simp only [List.map_cons, sizeOfAll, first, inductionHypothesis others]

/-- The terms directly below the root are smaller. -/
theorem size_lt_of_mem_children
    {child term : Term}
    (member : child ∈ term.children) :
    child.size < term.size := by
  cases term with
  | tuple items =>
      simp only [children] at member
      induction items with
      | nil =>
          simp at member
      | cons head tail inductionHypothesis =>
          simp only [size, sizeOfAll] at inductionHypothesis ⊢
          rcases List.mem_cons.mp member with rfl | inTail
          · omega
          · have bound := inductionHypothesis inTail
            omega
  | _ =>
      grind [children, size]

/-- What a part mentions, the whole term mentions. -/
theorem mem_identifiers_of_mem_children
    {child term : Term}
    {identifier : Identifier}
    (member : child ∈ term.children)
    (mentioned : identifier ∈ child.identifiers) :
    identifier ∈ term.identifiers := by
  cases term with
  | tuple items =>
      simp only [identifiers, identifiersInAll_eq_flatMap, List.mem_flatMap]
      exact ⟨child, member, mentioned⟩
  | _ =>
      grind [children, identifiers]

end TypedLambda.Term
