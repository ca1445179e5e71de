import TypedLambda.SymbolSet

namespace TypedLambda

/-!
# Operators

The variable-binding operators, the truth-functional connectives and the
relations between sets, each with its logical and its plain symbol.
-/

/-- An operator that binds a variable in its body. -/
inductive Binder where
  /-- Abstraction, λ. -/
  | lambda
  /-- The universal quantifier, ∀. -/
  | universal
  /-- The existential quantifier, ∃. -/
  | existential
  /-- The definite description, ι. -/
  | description
  deriving Repr, DecidableEq

namespace Binder

/-- The symbol in front of the bound variable. -/
def symbol : Binder → SymbolSet → List Char
  | .lambda => SymbolSet.choose "λ" "L"
  | .universal => SymbolSet.choose "∀" "A"
  | .existential => SymbolSet.choose "∃" "E"
  | .description => SymbolSet.choose "ι" "I"

/-- The binder that a plain letter may stand for. -/
def ofLetter? : Char → Option Binder
  | 'L' => some .lambda
  | 'A' => some .universal
  | 'E' => some .existential
  | 'I' => some .description
  | _ => none

end Binder

/-- A binary truth-functional connective. -/
inductive Connective where
  /-- Conjunction, ∧. -/
  | conjunction
  /-- Disjunction, ∨. -/
  | disjunction
  /-- The conditional, →. -/
  | conditional
  /-- The biconditional, ↔. -/
  | biconditional
  deriving Repr, DecidableEq

namespace Connective

/-- The symbol between the two operands. -/
def symbol : Connective → SymbolSet → List Char
  | .conjunction => SymbolSet.choose "∧" "&"
  | .disjunction => SymbolSet.choose "∨" "|"
  | .conditional => SymbolSet.choose "→" "->"
  | .biconditional => SymbolSet.choose "↔" "<->"

end Connective

/-- A relation between two sets. -/
inductive SetRelation where
  /-- Inclusion, ⊆. -/
  | subset
  /-- Proper inclusion, ⊂. -/
  | properSubset
  deriving Repr, DecidableEq

namespace SetRelation

/-- The symbol between the two sets. -/
def symbol : SetRelation → SymbolSet → List Char
  | .subset => SymbolSet.choose "⊆" "<="
  | .properSubset => SymbolSet.choose "⊂" "<"

end SetRelation

/-- The symbol of negation. -/
def negationSymbol : SymbolSet → List Char :=
  SymbolSet.choose "¬" "~"

end TypedLambda
