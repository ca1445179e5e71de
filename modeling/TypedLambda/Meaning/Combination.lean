import TypedLambda.Term.Names
import TypedLambda.Term.Typing

namespace TypedLambda

/-!
# Combining two meanings

The meanings of two sister nodes of a syntax tree make up the meaning of their
mother. If one can be applied to the other, it is; the left one is tried as
the function first. Otherwise two sets of the same things are intersected:
the result is the set of what is in both.
-/

/-- How the meaning of a node comes about. -/
inductive Rule where
  /-- One sister is applied to the other. -/
  | functionApplication
  /-- Two sets are intersected. -/
  | predicateModification
  /-- The node has its meaning from the lexicon or from an only child. -/
  | nonBranching
  deriving Repr, DecidableEq

namespace Rule

/-- The name of the rule. -/
def text : Rule → String
  | .functionApplication => "Function Application"
  | .predicateModification => "Predicate Modification"
  | .nonBranching => "Non-Branching Nodes"

instance : ToString Rule := ⟨text⟩

end Rule

/-- The meaning of a node and the rule that it comes from. -/
structure Meaning where
  rule : Rule
  term : Term
  deriving Repr, DecidableEq

/-- Why a node has no meaning. -/
inductive CompositionError where
  /-- The sisters' types fit neither way. -/
  | noRule (left right : Term)
  /-- A leaf or a sister has no type. -/
  | illTyped (reason : TypeError)
  /-- A node with no children, or with more than two. -/
  | arity (children : Nat)
  deriving Repr, DecidableEq

namespace CompositionError

/-- The message shown to the user. -/
def message : CompositionError → String
  | .noRule left right => s!"No composition rule applies to {left} and {right}"
  | .illTyped reason => reason.message
  | .arity children => s!"Cannot compose a node with {children} children"

end CompositionError

namespace Ty

/-- Whether a function of one type can be applied to an argument of another. -/
def accepts (function argument : Ty) : Bool :=
  match function with
  | .fn domain _ => domain.aligns ((argument.renameApart function).apply argument)
  | _ => false

/-- The type of the things that two types of sets have in common. -/
def commonElement? (left right : Ty) : Option Ty :=
  match left.element?, right.element? with
  | some leftElement, some rightElement =>
      match leftElement.align rightElement with
      | .ok alignment => some (alignment.apply leftElement)
      | .error _ => none
  | _, _ => none

end Ty

namespace Term

/-- The set of the things of a type that are in both of two sets. -/
def intersection (element : Ty) (left right : Term) : Term :=
  let name := freshName (left.nameOccurrences ++ right.nameOccurrences) "x"
  let common : Identifier := ⟨name, element⟩
  .bind .lambda common
    (.connect .conjunction (.app left (.var common)) (.app right (.var common)))

/-- The meaning that two sisters have together; it is not reduced. -/
def combine (left right : Term) : Except CompositionError Meaning := do
  let leftType ← left.typeOf.mapError .illTyped
  let rightType ← right.typeOf.mapError .illTyped
  if leftType.accepts rightType then
    return ⟨.functionApplication, .app left right⟩
  else if rightType.accepts leftType then
    return ⟨.functionApplication, .app right left⟩
  else
    match leftType.commonElement? rightType with
    | some element => return ⟨.predicateModification, intersection element left right⟩
    | none => throw (.noRule left right)

end Term

end TypedLambda
