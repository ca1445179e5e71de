import TypedLambda.Meaning.Combination

namespace TypedLambda

/-!
# Interpreting syntax trees

A syntax tree has words at its leaves, given by their meanings. It is
interpreted from the leaves upwards: an only child hands its meaning on, two
children combine theirs.
-/

/-- A syntax tree whose leaves carry meanings. -/
inductive SyntaxTree where
  | leaf (term : Term)
  | branch (children : List SyntaxTree)
  deriving Repr

namespace SyntaxTree

/-- The meaning of a tree, or the first reason why it has none. -/
def interpret : SyntaxTree → Except CompositionError Meaning
  | .leaf term =>
      match term.typeOf with
      | .ok _ => .ok ⟨.nonBranching, term⟩
      | .error reason => .error (.illTyped reason)
  | .branch [only] => do
      let meaning ← only.interpret
      return ⟨.nonBranching, meaning.term⟩
  | .branch [left, right] => do
      let leftMeaning ← left.interpret
      let rightMeaning ← right.interpret
      leftMeaning.term.combine rightMeaning.term
  | .branch children => .error (.arity children.length)
termination_by structural tree => tree

end SyntaxTree

end TypedLambda
