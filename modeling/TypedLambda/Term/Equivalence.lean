import TypedLambda.Term.Basic
import TypedLambda.Ty.Printer

namespace TypedLambda

/-!
# Equivalent terms

Three comparisons that are looser than equality. `alphaEquivalent` disregards
the names of bound variables, `reorderEquivalent` also the grouping and order
of conjuncts and disjuncts and the sides of biconditionals and equations, and
`operatorEquivalent` looks at operators and binders alone.

The first compares canonical forms, where a bound variable is named after the
number of binders around its own. The other two compare texts that spell out
the structure of a term.
-/

namespace Term

/-- The name of a variable bound under a number of binders. -/
def canonicalName (depth : Nat) : String :=
  "#" ++ toString depth

/-- The number of binders around the innermost one for a name, if one binds it. -/
def bindingDepth? (name : String) : List String → Option Nat
  | [] => none
  | bound :: outer => if bound = name then some outer.length else bindingDepth? name outer

mutual

/-- Name bound variables by depth, the names bound outside being given, innermost first. -/
def canonicalIn (scope : List String) : Term → Term
  | .var identifier =>
      match bindingDepth? identifier.name scope with
      | some depth => .var ⟨canonicalName depth, identifier.ty⟩
      | none => .var identifier
  | .const identifier => .const identifier
  | .bind binder bound body =>
      .bind binder ⟨canonicalName scope.length, bound.ty⟩ (body.canonicalIn (bound.name :: scope))
  | .app function argument => .app (function.canonicalIn scope) (argument.canonicalIn scope)
  | .tuple items => .tuple (canonicalAllIn scope items)
  | .neg term => .neg (term.canonicalIn scope)
  | .connect connective left right =>
      .connect connective (left.canonicalIn scope) (right.canonicalIn scope)
  | .equal left right => .equal (left.canonicalIn scope) (right.canonicalIn scope)
  | .relate relation left right =>
      .relate relation (left.canonicalIn scope) (right.canonicalIn scope)

/-- Name the bound variables in every term of a list by depth. -/
def canonicalAllIn (scope : List String) : List Term → List Term
  | [] => []
  | term :: rest => term.canonicalIn scope :: canonicalAllIn scope rest

end

/-- The term with every bound variable named after its depth. -/
def canonical (term : Term) : Term :=
  term.canonicalIn []

/-- Whether two terms differ in the names of bound variables only. -/
def alphaEquivalent (left right : Term) : Bool :=
  left.canonical = right.canonical

end Term

/-- The word for a binder in a key. -/
def Binder.keyWord : Binder → List Char
  | .lambda => "Lambda".toList
  | .universal => "ForAll".toList
  | .existential => "Exists".toList
  | .description => "Iota".toList

/-- The word for a connective in a key. -/
def Connective.keyWord : Connective → List Char
  | .conjunction => "And".toList
  | .disjunction => "Or".toList
  | .conditional => "If".toList
  | .biconditional => "Iff".toList

/-- The word for a set relation in a key. -/
def SetRelation.keyWord : SetRelation → List Char
  | .subset => "Subset".toList
  | .properSubset => "ProperSubset".toList

namespace Term

/-- A word with a list of keys in parentheses. -/
def keyed (word : List Char) (keys : List (List Char)) : List Char :=
  word ++ '(' :: [','].intercalate keys ++ [')']

/-- Keys in ascending order. -/
def sortKeys (keys : List (List Char)) : List (List Char) :=
  Sorting.sort Sorting.textPrecedes keys

/-- A name and its type as part of a key. -/
def identifierKey (identifier : Identifier) : List Char :=
  identifier.name.toList ++ ':' :: identifier.ty.chars .logical

/-- The key of a term, kept in parts where a connective regroups its operands. -/
inductive KeyParts where
  /-- The key of a term that is no conjunction or disjunction. -/
  | whole (key : List Char)
  /-- The keys of all operands that one connective joins, in any grouping. -/
  | chain (connective : Connective) (operands : List (List Char))
  deriving Repr, DecidableEq

namespace KeyParts

/-- The parts put together, operands in order. -/
def key : KeyParts → List Char
  | .whole text => text
  | .chain connective operands => keyed connective.keyWord (sortKeys operands)

/-- The keys that a term contributes as an operand of a connective. -/
def operandsOf (connective : Connective) (parts : KeyParts) : List (List Char) :=
  match parts with
  | .whole text => [text]
  | .chain inner operands => if inner = connective then operands else [parts.key]

end KeyParts

mutual

/-- The structure of a term with operands in order where their order does not matter. -/
def keyParts : Term → KeyParts
  | .var identifier => .whole ("var ".toList ++ identifierKey identifier)
  | .const identifier => .whole ("const ".toList ++ identifierKey identifier)
  | .bind binder bound body =>
      .whole (keyed (binder.keyWord ++ ' ' :: identifierKey bound) [body.keyParts.key])
  | .app function argument =>
      .whole (keyed "app".toList [function.keyParts.key, argument.keyParts.key])
  | .tuple items => .whole (keyed "tuple".toList (orderKeys items))
  | .neg term => .whole (keyed "not".toList [term.keyParts.key])
  | .connect .conjunction left right =>
      .chain .conjunction
        (left.keyParts.operandsOf .conjunction ++ right.keyParts.operandsOf .conjunction)
  | .connect .disjunction left right =>
      .chain .disjunction
        (left.keyParts.operandsOf .disjunction ++ right.keyParts.operandsOf .disjunction)
  | .connect .conditional left right =>
      .whole (keyed (Connective.keyWord .conditional) [left.keyParts.key, right.keyParts.key])
  | .connect .biconditional left right =>
      .whole (keyed (Connective.keyWord .biconditional)
        (sortKeys [left.keyParts.key, right.keyParts.key]))
  | .equal left right =>
      .whole (keyed "eq".toList (sortKeys [left.keyParts.key, right.keyParts.key]))
  | .relate relation left right =>
      .whole (keyed relation.keyWord [left.keyParts.key, right.keyParts.key])

/-- The keys of the terms in a list. -/
def orderKeys : List Term → List (List Char)
  | [] => []
  | term :: rest => term.keyParts.key :: orderKeys rest

end

/-- The key of a term; equal keys stand for terms alike up to order and grouping. -/
def orderKey (term : Term) : List Char :=
  term.keyParts.key

mutual

/-- The operators and binders of a term, with one sign for all identifiers. -/
def shapeKey : Term → List Char
  | .var _ => ['_']
  | .const _ => ['_']
  | .bind binder _ body => keyed binder.keyWord [body.shapeKey]
  | .app function argument => keyed "app".toList [function.shapeKey, argument.shapeKey]
  | .tuple items => keyed "tuple".toList (shapeKeys items)
  | .neg term => keyed "not".toList [term.shapeKey]
  | .connect connective left right => keyed connective.keyWord [left.shapeKey, right.shapeKey]
  | .equal left right => keyed "eq".toList [left.shapeKey, right.shapeKey]
  | .relate relation left right => keyed relation.keyWord [left.shapeKey, right.shapeKey]

/-- The shapes of the terms in a list. -/
def shapeKeys : List Term → List (List Char)
  | [] => []
  | term :: rest => term.shapeKey :: shapeKeys rest

end

/-- Whether two terms have the same operators and binders in the same places. -/
def operatorEquivalent (left right : Term) : Bool :=
  left.shapeKey = right.shapeKey

/--
Whether two terms are alike up to the names of bound variables, the grouping
and order of conjuncts and of disjuncts, and the sides of biconditionals and
equations.
-/
def reorderEquivalent (left right : Term) : Bool :=
  left.canonical.orderKey = right.canonical.orderKey

end Term

end TypedLambda
