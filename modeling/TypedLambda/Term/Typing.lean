import TypedLambda.Term.Printer
import TypedLambda.Ty.Alignment

namespace TypedLambda

/-!
# The types of terms

Operands of connectives, negations and quantifiers have to be truth values,
the sides of an equation have to agree, and so do those of a set relation,
which also have to be sets. Types agree if they can be aligned, except that
the type variables of an argument are kept apart from those of its function.
-/

namespace Ty

/-- Whether two types can be made equal. -/
def aligns (left right : Ty) : Bool :=
  (left.align right).isOk

/-- Demand that a type can be that of truth values. -/
def demandTruth (ty : Ty) : Except TypeError Unit := do
  let _ ← truth.align ty
  return ()

/-- The elements of the sets of a type, if its functions yield truth values. -/
def element? : Ty → Option Ty
  | .fn domain range => if truth.aligns range then some domain else none
  | _ => none

end Ty

namespace Term

mutual

/-- The type of a term, or the first reason why it has none. -/
def typeOf : Term → Except TypeError Ty
  | .var identifier => .ok identifier.ty
  | .const identifier => .ok identifier.ty
  | .bind .lambda bound body => do
      let range ← body.typeOf
      return .fn bound.ty range
  | .bind .universal _ body => do
      (← body.typeOf).demandTruth
      return .truth
  | .bind .existential _ body => do
      (← body.typeOf).demandTruth
      return .truth
  | .bind .description bound body => do
      (← body.typeOf).demandTruth
      return bound.ty
  | .app function argument => do
      let functionType ← function.typeOf
      let argumentType ← argument.typeOf
      let (ty, _) ← functionType.applyTo argumentType function
      return ty
  | .tuple items => do
      let factors ← typesOf items
      return .prod factors
  | .neg term => do
      (← term.typeOf).demandTruth
      return .truth
  | .connect _ left right => do
      (← left.typeOf).demandTruth
      (← right.typeOf).demandTruth
      return .truth
  | .equal left right => do
      let leftType ← left.typeOf
      let rightType ← right.typeOf
      let _ ← leftType.align rightType
      return .truth
  | .relate relation left right => do
      let leftType ← left.typeOf
      let rightType ← right.typeOf
      let alignment ← leftType.align rightType
      let common := alignment.apply leftType
      match common.element? with
      | some _ => return .truth
      | none => throw (.notSet (toString (Term.relate relation left right)) common)

/-- The types of the terms in a list. -/
def typesOf : List Term → Except TypeError (List Ty)
  | [] => .ok []
  | term :: rest => do
      let ty ← term.typeOf
      let types ← typesOf rest
      return ty :: types

end

end Term

end TypedLambda
