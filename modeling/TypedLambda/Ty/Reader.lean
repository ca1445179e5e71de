import TypedLambda.SyntaxError
import TypedLambda.Text.Blank
import TypedLambda.Text.Letter
import TypedLambda.Ty.Basic

namespace TypedLambda.Ty

/-!
# Reading types

A type is one or more factors with × or * between them. A factor is a small
letter, a quote with a small letter right behind it, `<` type `,` type `>`
with the comma optional, or `(` type `)`. Blanks may stand between all of
these.

The reader is a machine with a stack. It takes one character at a time and
never looks ahead, so a character that no type continues with is noticed at
once, and its position is that of the error.
-/

namespace Reader

/-- What opened the product that is being read. -/
inductive Opening where
  /-- The domain of a function type, after `<`. -/
  | domain
  /-- The range of a function type whose domain is known. -/
  | range (domain : Ty)
  /-- A type in parentheses. -/
  | group
  deriving Repr

/-- A product further out: its factors so far, and what opened after them. -/
structure Level where
  factors : List Ty
  opening : Opening
  deriving Repr

/-- What the next character other than a blank is to be. -/
inductive Mode where
  /-- The start of a factor. -/
  | factor
  /-- The letter of a type variable; no blank may come before it. -/
  | letter
  /-- A sign that continues or closes the product. -/
  | continuation
  deriving Repr, DecidableEq

/-- The products begun and not yet closed, the innermost apart from the rest. -/
structure State where
  mode : Mode
  factors : List Ty
  outer : List Level
  deriving Repr

/-- Before the first character. -/
def start : State := ⟨.factor, [], []⟩

/-- The type that a list of factors denotes; a single one stands for itself. -/
def product : List Ty → Ty
  | [factor] => factor
  | factors => .prod factors

/-- Complete a factor of the innermost product. -/
def State.add (state : State) (factor : Ty) : State :=
  ⟨.continuation, state.factors ++ [factor], state.outer⟩

/-- Read the first character of a factor. -/
def State.beginFactor
    (state : State)
    (character : Char) :
    Except Expectation State :=
  if character = '<' then
    .ok ⟨.factor, [], ⟨state.factors, .domain⟩ :: state.outer⟩
  else if character = '(' then
    .ok ⟨.factor, [], ⟨state.factors, .group⟩ :: state.outer⟩
  else if character = '\x27' then
    .ok { state with mode := .letter }
  else if Text.isSmallLetter character then
    .ok (state.add (.atom character))
  else
    .error .type

/-- Read the character that follows a whole factor. -/
def State.continueProduct
    (state : State)
    (character : Char) :
    Except Expectation State :=
  if character = '×' ∨ character = '*' then
    .ok { state with mode := .factor }
  else
    match state.outer with
    | [] => .error .endOfType
    | ⟨before, .domain⟩ :: outer =>
        let next : State := ⟨.factor, [], ⟨before, .range (product state.factors)⟩ :: outer⟩
        if character = ',' then .ok next else next.beginFactor character
    | ⟨before, .range domain⟩ :: outer =>
        if character = '>' then
          .ok ⟨.continuation, before ++ [.fn domain (product state.factors)], outer⟩
        else
          .error (.character '>')
    | ⟨before, .group⟩ :: outer =>
        if character = ')' then
          .ok ⟨.continuation, before ++ [product state.factors], outer⟩
        else
          .error (.character ')')

/-- Read one character. -/
def State.step
    (state : State)
    (character : Char) :
    Except Expectation State :=
  match state.mode with
  | .letter =>
      if Text.isSmallLetter character then
        .ok (state.add (.var character))
      else
        .error .typeVariableName
  | .factor =>
      if Text.isBlank character then .ok state else state.beginFactor character
  | .continuation =>
      if Text.isBlank character then .ok state else state.continueProduct character

/-- The type read, if it may end here. -/
def State.finish (state : State) : Except Expectation Ty :=
  match state.mode, state.outer with
  | .letter, _ => .error .typeVariableName
  | .factor, _ => .error .type
  | .continuation, [] => .ok (product state.factors)
  | .continuation, ⟨_, .domain⟩ :: _ => .error .type
  | .continuation, ⟨_, .range _⟩ :: _ => .error (.character '>')
  | .continuation, ⟨_, .group⟩ :: _ => .error (.character ')')

/-- Read the rest of a text from a state, the next character's position given. -/
def run
    (position : Nat)
    (state : State) :
    List Char → Except SyntaxError Ty
  | [] =>
      match state.finish with
      | .ok ty => .ok ty
      | .error expected => .error (.unexpected expected .endOfInput position)
  | character :: rest =>
      match state.step character with
      | .ok next => run (position + 1) next rest
      | .error expected =>
          .error (.unexpected expected (.character character) position)

end Reader

/-- The type that a text denotes. -/
def read (text : String) : Except SyntaxError Ty :=
  Reader.run 0 Reader.start text.toList

end TypedLambda.Ty
