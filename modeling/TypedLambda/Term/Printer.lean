import TypedLambda.Term.Basic

namespace TypedLambda

/-!
# Printed terms

Terms are printed with as few parentheses as reading them back allows. Each
form of term has a strength, and an operand weaker than its place demands is
put into parentheses. A function that is not a name or an application itself
stands in brackets.
-/

namespace Term

/--
How strongly a term holds together: binders least, then the connectives,
equations and set relations, negations, and whatever needs no parentheses.
-/
def strength : Term → Nat
  | .bind _ _ _ => 0
  | .connect .biconditional _ _ => 1
  | .connect .conditional _ _ => 2
  | .connect .disjunction _ _ => 3
  | .connect .conjunction _ _ => 4
  | .equal _ _ => 5
  | .relate _ _ _ => 5
  | .neg _ => 6
  | .var _ => 7
  | .const _ => 7
  | .app _ _ => 7
  | .tuple _ => 7

end Term

namespace Connective

/-- The least strength of a left operand without parentheses. -/
def leftStrength : Connective → Nat
  | .biconditional => 1
  | .conditional => 3
  | .disjunction => 3
  | .conjunction => 4

/-- The least strength of a right operand without parentheses. -/
def rightStrength : Connective → Nat
  | .biconditional => 2
  | .conditional => 2
  | .disjunction => 4
  | .conjunction => 5

end Connective

namespace Term

/-- The text of an operand, given its text as a term and the strength its place demands. -/
def operand (demanded : Nat) (term : Term) (text : List Char) : List Char :=
  if term.strength < demanded then '(' :: text ++ [')'] else text

/-- The text of a function in front of its argument, given its text as a term. -/
def functionPart : Term → List Char → List Char
  | .var _, text => text
  | .const _, text => text
  | .app _ _, text => text
  | _, text => '[' :: text ++ [']']

/-- The text of an argument; a tuple has its parentheses already. -/
def argumentPart : Term → List Char → List Char
  | .tuple _, text => text
  | _, text => '(' :: text ++ [')']

/-- A symbol with a space on either side. -/
def spaced (symbol : List Char) : List Char :=
  ' ' :: symbol ++ [' ']

mutual

/-- The characters of a printed term. -/
def chars (symbols : SymbolSet) : Term → List Char
  | .var identifier => identifier.name.toList
  | .const identifier => identifier.name.toList
  | .bind binder bound body =>
      binder.symbol symbols ++ bound.name.toList ++ '.' :: body.chars symbols
  | .app function argument =>
      functionPart function (function.chars symbols) ++
        argumentPart argument (argument.chars symbols)
  | .tuple [] => ['(', ')']
  | .tuple (item :: rest) => '(' :: item.chars symbols ++ furtherItems symbols rest ++ [')']
  | .neg term => negationSymbol symbols ++ operand 6 term (term.chars symbols)
  | .connect connective left right =>
      operand connective.leftStrength left (left.chars symbols) ++
        spaced (connective.symbol symbols) ++
        operand connective.rightStrength right (right.chars symbols)
  | .equal left right =>
      operand 6 left (left.chars symbols) ++ spaced ['='] ++
        operand 6 right (right.chars symbols)
  | .relate relation left right =>
      operand 6 left (left.chars symbols) ++ spaced (relation.symbol symbols) ++
        operand 6 right (right.chars symbols)

/-- The characters of the items after the first one. -/
def furtherItems (symbols : SymbolSet) : List Term → List Char
  | [] => []
  | item :: rest => ',' :: item.chars symbols ++ furtherItems symbols rest

end

/-- The printed form of a term. -/
def text (symbols : SymbolSet) (term : Term) : String :=
  String.ofList (term.chars symbols)

instance : ToString Term := ⟨text .logical⟩

end Term

end TypedLambda
