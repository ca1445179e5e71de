import TypedLambda.Term.Basic

namespace TypedLambda

/-!
# Redexes and their places

A redex is an abstraction applied to an argument. Where it stands in a term is
told by the nodes above it, each of them a frame with a hole. The leftmost
redex is the one that comes first when a term is read from the root
downwards and from left to right, so it has no redex around it.
-/

/-- An abstraction over a variable, applied to an argument. -/
structure Redex where
  bound : Identifier
  body : Term
  argument : Term
  deriving Repr, DecidableEq

namespace Redex

/-- The abstraction. -/
def function (redex : Redex) : Term :=
  .bind .lambda redex.bound redex.body

/-- The redex as a term. -/
def toTerm (redex : Redex) : Term :=
  .app redex.function redex.argument

end Redex

/-- A node of a term with a hole for one of its children. -/
inductive Frame where
  | bind (binder : Binder) (bound : Identifier)
  | function (argument : Term)
  | argument (function : Term)
  | item (before after : List Term)
  | neg
  | connectLeft (connective : Connective) (right : Term)
  | connectRight (connective : Connective) (left : Term)
  | equalLeft (right : Term)
  | equalRight (left : Term)
  | relateLeft (relation : SetRelation) (right : Term)
  | relateRight (relation : SetRelation) (left : Term)
  deriving Repr, DecidableEq

namespace Frame

/-- Put a term into the hole. -/
def fill : Frame → Term → Term
  | .bind binder bound, term => .bind binder bound term
  | .function operand, term => .app term operand
  | .argument operator, term => .app operator term
  | .item before after, term => .tuple (before ++ term :: after)
  | .neg, term => .neg term
  | .connectLeft connective right, term => .connect connective term right
  | .connectRight connective left, term => .connect connective left term
  | .equalLeft right, term => .equal term right
  | .equalRight left, term => .equal left term
  | .relateLeft relation right, term => .relate relation term right
  | .relateRight relation left, term => .relate relation left term

end Frame

/-- What surrounds a place in a term, from the root inwards. -/
abbrev Context := List Frame

namespace Context

/-- Put a term into the place. -/
def fill (context : Context) (term : Term) : Term :=
  context.foldr Frame.fill term

@[simp] theorem fill_nil (term : Term) :
    fill [] term = term :=
  rfl

@[simp] theorem fill_cons (frame : Frame) (context : Context) (term : Term) :
    fill (frame :: context) term = frame.fill (fill context term) :=
  rfl

end Context

/-- A redex and what surrounds it. -/
structure PlacedRedex where
  context : Context
  redex : Redex
  deriving Repr, DecidableEq

namespace PlacedRedex

/-- The same redex seen from one node further out. -/
def under (frame : Frame) (place : PlacedRedex) : PlacedRedex :=
  ⟨frame :: place.context, place.redex⟩

/-- The whole term with something else in the place of the redex. -/
def replace (place : PlacedRedex) (term : Term) : Term :=
  place.context.fill term

/-- The whole term. -/
def whole (place : PlacedRedex) : Term :=
  place.replace place.redex.toTerm

@[simp] theorem whole_under (frame : Frame) (place : PlacedRedex) :
    (place.under frame).whole = frame.fill place.whole :=
  rfl

end PlacedRedex

namespace Term

/-- The redex that an application is. -/
def redex? : Term → Term → Option Redex
  | .bind .lambda bound body, argument => some ⟨bound, body, argument⟩
  | _, _ => none

mutual

/-- The leftmost redex of a term. -/
def leftmostRedex? : Term → Option PlacedRedex
  | .var _ => none
  | .const _ => none
  | .bind binder bound body => body.leftmostRedex?.map (·.under (.bind binder bound))
  | .app function argument =>
      match redex? function argument with
      | some redex => some ⟨[], redex⟩
      | none =>
          (function.leftmostRedex?.map (·.under (.function argument))).or
            (argument.leftmostRedex?.map (·.under (.argument function)))
  | .tuple items => leftmostRedexAmong? [] items
  | .neg operand => operand.leftmostRedex?.map (·.under .neg)
  | .connect connective left right =>
      (left.leftmostRedex?.map (·.under (.connectLeft connective right))).or
        (right.leftmostRedex?.map (·.under (.connectRight connective left)))
  | .equal left right =>
      (left.leftmostRedex?.map (·.under (.equalLeft right))).or
        (right.leftmostRedex?.map (·.under (.equalRight left)))
  | .relate relation left right =>
      (left.leftmostRedex?.map (·.under (.relateLeft relation right))).or
        (right.leftmostRedex?.map (·.under (.relateRight relation left)))

/-- The leftmost redex among the items of a tuple that come after the given ones. -/
def leftmostRedexAmong? (before : List Term) : List Term → Option PlacedRedex
  | [] => none
  | item :: after =>
      (item.leftmostRedex?.map (·.under (.item before after))).or
        (leftmostRedexAmong? (before ++ [item]) after)

end

/-- Whether no redex is left. -/
def isNormal (term : Term) : Bool :=
  term.leftmostRedex?.isNone

/--
Put in the place of the leftmost redex what an action makes of it. Without a
redex the action is not run.
-/
def replaceLeftmostRedexM
    [Monad m]
    (action : Redex → m Term)
    (term : Term) :
    m (Option Term) :=
  match term.leftmostRedex? with
  | none => pure none
  | some place => do
      let replacement ← action place.redex
      return some (place.replace replacement)

/-- A term with its leftmost redex replaced, if it has one. -/
def replaceLeftmostRedex?
    (replacement : Redex → Term)
    (term : Term) :
    Option Term :=
  term.leftmostRedex?.map fun place => place.replace (replacement place.redex)

/-- An application is the redex that is read off it. -/
theorem toTerm_of_redex?
    {function argument : Term}
    {redex : Redex}
    (found : redex? function argument = some redex) :
    redex.toTerm = .app function argument := by
  unfold redex? at found
  split at found
  · next bound body =>
      obtain rfl := Option.some.inj found
      rfl
  · nomatch found

end Term

end TypedLambda
