import TypedLambda.Conversion.Redex
import TypedLambda.Conversion.Substitution
import TypedLambda.Term.Names
import TypedLambda.Term.Typing

namespace TypedLambda

/-!
# Contracting a redex

The argument of a redex takes the place of the bound variable in the body,
after the type variables of both have been specialised to fit. If a binder in
the body would capture a free variable of the argument, all such binders are
renamed instead, and the contraction is left to the next step.
-/

/-- What a conversion step does. -/
inductive StepKind where
  /-- Rename bound variables, so that nothing is captured. -/
  | alpha
  /-- Put the argument in the place of the variable. -/
  | beta
  deriving Repr, DecidableEq

/-- A binder whose variable has got a new name. -/
structure Renaming where
  binder : Binder
  old : String
  new : String
  deriving Repr, DecidableEq

namespace Term

mutual

/--
Rename the binders below which a variable is free and whose own variable is
free in the argument, the innermost first. New names differ from the used ones
and from those given before; the renamings done are kept, the last one first.
-/
def avoidCapture
    (used : List String)
    (name : String)
    (argument : Term) :
    Term → List Renaming → Term × List Renaming
  | .var identifier, done => (.var identifier, done)
  | .const identifier, done => (.const identifier, done)
  | .bind binder bound body, done =>
      if bound.name = name then
        (.bind binder bound body, done)
      else
        let (body, done) := avoidCapture used name argument body done
        if argument.hasFree bound.name && body.hasFree name then
          let fresh := freshName (used ++ done.map Renaming.new) bound.name
          let renamed : Identifier := ⟨fresh, bound.ty⟩
          (.bind binder renamed (substitute bound.name (.var renamed) body),
            ⟨binder, bound.name, fresh⟩ :: done)
        else
          (.bind binder bound body, done)
  | .app function operand, done =>
      let (function, done) := avoidCapture used name argument function done
      let (operand, done) := avoidCapture used name argument operand done
      (.app function operand, done)
  | .tuple items, done =>
      let (items, done) := avoidCaptureInAll used name argument items done
      (.tuple items, done)
  | .neg term, done =>
      let (term, done) := avoidCapture used name argument term done
      (.neg term, done)
  | .connect connective left right, done =>
      let (left, done) := avoidCapture used name argument left done
      let (right, done) := avoidCapture used name argument right done
      (.connect connective left right, done)
  | .equal left right, done =>
      let (left, done) := avoidCapture used name argument left done
      let (right, done) := avoidCapture used name argument right done
      (.equal left right, done)
  | .relate relation left right, done =>
      let (left, done) := avoidCapture used name argument left done
      let (right, done) := avoidCapture used name argument right done
      (.relate relation left right, done)

/-- Rename the capturing binders in every term of a list, from left to right. -/
def avoidCaptureInAll
    (used : List String)
    (name : String)
    (argument : Term) :
    List Term → List Renaming → List Term × List Renaming
  | [], done => ([], done)
  | term :: rest, done =>
      let (term, done) := avoidCapture used name argument term done
      let (rest, done) := avoidCaptureInAll used name argument rest done
      (term :: rest, done)

end

end Term

/-- What becomes of a redex, and the renamings that it takes, the last one first. -/
structure Contraction where
  result : Term
  renamings : List Renaming
  deriving Repr, DecidableEq

namespace Contraction

/-- A contraction that renames does nothing else. -/
def kind (contraction : Contraction) : StepKind :=
  if contraction.renamings.isEmpty then .beta else .alpha

end Contraction

namespace Redex

/-- The names that new ones must differ from. -/
def usedNames (redex : Redex) : List String :=
  redex.bound.name :: (redex.body.nameOccurrences ++ redex.argument.nameOccurrences)

/-- The body with its capturing binders renamed, and the renamings. -/
def renamedBody (redex : Redex) : Term × List Renaming :=
  Term.avoidCapture redex.usedNames redex.bound.name redex.argument redex.body []

/-- The argument with its type variables apart from those of the abstraction. -/
def apartArgument (redex : Redex) (functionType argumentType : Ty) : Term :=
  redex.argument.instantiate (argumentType.renameApart functionType)

/-- Contract a redex or make it ready, unless its parts do not fit together. -/
def contract (redex : Redex) : Except TypeError Contraction := do
  let functionType ← redex.function.typeOf
  let argumentType ← redex.argument.typeOf
  let argument := redex.apartArgument functionType argumentType
  let apartType ← argument.typeOf
  let (_, alignment) ← functionType.applyTo apartType redex.function
  match redex.renamedBody with
  | (_, []) =>
      return ⟨Term.substitute redex.bound.name (argument.instantiate alignment)
        (redex.body.instantiate alignment), []⟩
  | (body, renamings) =>
      return ⟨.app (.bind .lambda redex.bound body) redex.argument, renamings⟩

end Redex

end TypedLambda
