import TypedLambda.Convention.Basic
import TypedLambda.Term.Printer
import TypedLambda.Token.Scan

namespace TypedLambda

/-!
# Reading terms

From loose to tight, a term is built with ↔, →, ∨, ∧, one of = ⊆ ⊂, and ¬;
↔, ∨ and ∧ group to the left, → to the right, and the relations not at all.
The body of a binder extends as far to the right as possible. Tightest is a
function followed by its arguments in parentheses. Several terms in
parentheses make a tuple; brackets only group.

The reader is a machine with a stack. It takes one lexeme at a time and keeps
the operators that still wait for their last operand; an operator that binds
less tightly completes them. Only a letter that may stand for a binder needs a
look ahead: it does if identifiers and a dot come next.
-/

/-- How written terms are understood. -/
structure ReadingOptions where
  /-- Whether the letters L, A, E and I may stand for binders. -/
  letterBinders : Bool
  /-- How far an identifier reaches. -/
  style : Token.NameStyle
  /-- The kinds and types of names. -/
  conventions : Conventions
  deriving Repr, DecidableEq

namespace ReadingOptions

/-- Letters for binders, names of a single letter, and the usual conventions. -/
def standard : ReadingOptions := ⟨true, .singleLetter, .standard⟩

/-- The variable or constant of a name at a position. -/
def identifierTerm
    (options : ReadingOptions)
    (name : String)
    (position : Nat) :
    Except SyntaxError Term :=
  match options.conventions.lookup? name with
  | some (.variable, ty) => .ok (.var ⟨name, ty⟩)
  | some (.constant, ty) => .ok (.const ⟨name, ty⟩)
  | none => .error (.unknownIdentifier name position)

/-- The variable of a name at a position where a binder binds it. -/
def boundVariable
    (options : ReadingOptions)
    (name : String)
    (position : Nat) :
    Except SyntaxError Identifier :=
  match options.conventions.lookup? name with
  | some (.variable, ty) => .ok ⟨name, ty⟩
  | some (.constant, _) => .error (.boundConstant name position)
  | none => .error (.unknownIdentifier name position)

end ReadingOptions

namespace Term

namespace Reader

/-- An operator that has all but its last operand. -/
inductive Pending where
  | negation
  | equation (left : Term)
  | relation (relation : SetRelation) (left : Term)
  | connective (connective : Connective) (left : Term)
  | binder (binder : Binder) (bound : List Identifier)
  deriving Repr, DecidableEq

namespace Pending

/-- Supply the last operand. -/
def complete : Pending → Term → Term
  | .negation, term => .neg term
  | .equation left, term => .equal left term
  | .relation operator left, term => .relate operator left term
  | .connective operator left, term => .connect operator left term
  | .binder operator bound, term => bound.foldr (Term.bind operator) term

/-- The strength of the term that comes about. -/
def strength : Pending → Nat
  | .negation => 6
  | .equation _ => 5
  | .relation _ _ => 5
  | .connective .conjunction _ => 4
  | .connective .disjunction _ => 3
  | .connective .conditional _ => 2
  | .connective .biconditional _ => 1
  | .binder _ _ => 0

end Pending

/-- Supply a term to all pending operators, the innermost first. -/
def completeAll (term : Term) (pending : List Pending) : Term :=
  pending.foldl (fun operand operator => operator.complete operand) term

/-- Complete the pending operators down to a strength, the innermost first. -/
def completeDown
    (strength : Nat)
    (term : Term) :
    List Pending → Term × List Pending
  | [] => (term, [])
  | operator :: rest =>
      if strength ≤ operator.strength then
        completeDown strength (operator.complete term) rest
      else
        (term, operator :: rest)

/--
Complete the pending operators until the term can be the left side of an
equation or a set relation.

A term that is such a relation itself cannot, and then everything up to the
next binder is complete; if there is no binder, nothing is left to relate.
-/
def completeToRelation
    (isRelation : Bool)
    (term : Term) :
    List Pending → Option (Term × List Pending)
  | [] => if isRelation then none else some (term, [])
  | .negation :: rest => completeToRelation isRelation (.neg term) rest
  | .equation left :: rest => completeToRelation true (.equal left term) rest
  | .relation operator left :: rest =>
      completeToRelation true (.relate operator left term) rest
  | .connective operator left :: rest =>
      if isRelation then
        completeToRelation true (.connect operator left term) rest
      else
        some (term, .connective operator left :: rest)
  | .binder operator bound :: rest =>
      if isRelation then
        completeToRelation false (bound.foldr (Term.bind operator) term) rest
      else
        some (term, .binder operator bound :: rest)

/-- What opened the list or group that is being read. -/
inductive Opening where
  /-- Parentheses at the start of a term, with the items read so far. -/
  | group (items : List Term)
  /-- Parentheses behind a function, with the arguments read so far. -/
  | call (function : Term) (arguments : List Term)
  /-- Brackets. -/
  | bracket
  deriving Repr, DecidableEq

/-- What may come next instead of a lexeme that does not continue a term. -/
def Opening.expectation : Opening → Expectation
  | .group _ => .commaOrClose
  | .call _ _ => .commaOrClose
  | .bracket => .character ']'

/-- An opening with the operators pending before it. -/
structure Level where
  opening : Opening
  pending : List Pending
  deriving Repr, DecidableEq

/-- What the next lexeme is to be. -/
inductive Mode where
  /-- The start of an operand. -/
  | operand
  /-- A variable of a binder, or the dot after its variables. -/
  | binding (binder : Binder) (bound : List Identifier)
  /-- Something behind a complete operand. -/
  | operator (term : Term)
  deriving Repr, DecidableEq

/-- The lists, groups and operators begun and not yet closed, innermost first. -/
structure State where
  mode : Mode
  pending : List Pending
  outer : List Level
  deriving Repr, DecidableEq

/-- Before the first lexeme. -/
def start : State := ⟨.operand, [], []⟩

/-- The term that a list in parentheses denotes; a single item stands for itself. -/
def collect : List Term → Term
  | [item] => item
  | items => .tuple items

/-- Whether a lexeme is an identifier. -/
def isIdentifier (lexeme : Lexeme) : Bool :=
  match lexeme.token with
  | .identifier _ => true
  | _ => false

/-- Whether identifiers and then a dot come next, and whether there are any. -/
def bindingAhead (rest : List Lexeme) : Bool :=
  match rest.dropWhile isIdentifier with
  | lexeme :: _ => lexeme.token = .dot
  | [] => false

/--
The binder that an identifier stands for, in front of the given lexemes, with
the first variable if it is fused with the letter.
-/
def letterBinder?
    (options : ReadingOptions)
    (name : String)
    (rest : List Lexeme) :
    Option (Binder × List Char) :=
  if options.letterBinders && bindingAhead rest then
    match name.toList with
    | [] => none
    | [letter] =>
        if (rest.head?.map isIdentifier).getD false then
          (Binder.ofLetter? letter).map fun binder => (binder, [])
        else
          none
    | letter :: first :: fused =>
        if Text.isLetter first then
          (Binder.ofLetter? letter).map fun binder => (binder, first :: fused)
        else
          none
  else
    none

/-- Read the lexeme at the start of an operand. -/
def State.beginOperand
    (state : State)
    (options : ReadingOptions)
    (lexeme : Lexeme)
    (rest : List Lexeme) :
    Except SyntaxError State :=
  match lexeme.token with
  | .negation => .ok ⟨.operand, .negation :: state.pending, state.outer⟩
  | .binder binder => .ok { state with mode := .binding binder [] }
  | .identifier name =>
      match letterBinder? options name rest with
      | some (binder, []) => .ok { state with mode := .binding binder [] }
      | some (binder, fused) => do
          let bound ← options.boundVariable (String.ofList fused) (lexeme.position + 1)
          return { state with mode := .binding binder [bound] }
      | none => do
          let term ← options.identifierTerm name lexeme.position
          return { state with mode := .operator term }
  | .openParenthesis => .ok ⟨.operand, [], ⟨.group [], state.pending⟩ :: state.outer⟩
  | .openBracket => .ok ⟨.operand, [], ⟨.bracket, state.pending⟩ :: state.outer⟩
  | token => .error (.unexpected .expression (.token token) lexeme.position)

/-- Read a lexeme among the variables of a binder. -/
def State.continueBinding
    (state : State)
    (options : ReadingOptions)
    (binder : Binder)
    (bound : List Identifier)
    (lexeme : Lexeme) :
    Except SyntaxError State :=
  match lexeme.token, bound with
  | .identifier name, _ => do
      let next ← options.boundVariable name lexeme.position
      return { state with mode := .binding binder (bound ++ [next]) }
  | token, [] => .error (.unexpected .variable (.token token) lexeme.position)
  | .dot, _ => .ok ⟨.operand, .binder binder bound :: state.pending, state.outer⟩
  | token, _ => .error (.unexpected (.character '.') (.token token) lexeme.position)

/-- Refuse a lexeme behind a complete operand. -/
def State.refuse (state : State) (lexeme : Lexeme) : Except SyntaxError State :=
  let expected :=
    match state.outer with
    | [] => .endOfInput
    | level :: _ => level.opening.expectation
  .error (.unexpected expected (.token lexeme.token) lexeme.position)

/-- Read the sign of an equation or a set relation behind an operand. -/
def State.beginRelation
    (state : State)
    (term : Term)
    (pendingOf : Term → Pending)
    (lexeme : Lexeme) :
    Except SyntaxError State :=
  match completeToRelation false term state.pending with
  | some (left, pending) => .ok ⟨.operand, pendingOf left :: pending, state.outer⟩
  | none => state.refuse lexeme

/-- Read the lexeme behind a complete operand. -/
def State.continueOperand
    (state : State)
    (term : Term)
    (lexeme : Lexeme) :
    Except SyntaxError State :=
  match lexeme.token, state.outer with
  | .openParenthesis, outer =>
      .ok ⟨.operand, [], ⟨.call term [], state.pending⟩ :: outer⟩
  | .equals, _ => state.beginRelation term .equation lexeme
  | .relation relation, _ => state.beginRelation term (.relation relation) lexeme
  | .connective connective, outer =>
      let (left, pending) := completeDown connective.leftStrength term state.pending
      .ok ⟨.operand, .connective connective left :: pending, outer⟩
  | .comma, ⟨.group items, pending⟩ :: outer =>
      let item := completeAll term state.pending
      .ok ⟨.operand, [], ⟨.group (items ++ [item]), pending⟩ :: outer⟩
  | .comma, ⟨.call function arguments, pending⟩ :: outer =>
      let argument := completeAll term state.pending
      .ok ⟨.operand, [], ⟨.call function (arguments ++ [argument]), pending⟩ :: outer⟩
  | .closeParenthesis, ⟨.group items, pending⟩ :: outer =>
      let item := completeAll term state.pending
      .ok ⟨.operator (collect (items ++ [item])), pending, outer⟩
  | .closeParenthesis, ⟨.call function arguments, pending⟩ :: outer =>
      let argument := completeAll term state.pending
      .ok ⟨.operator (.app function (collect (arguments ++ [argument]))), pending, outer⟩
  | .closeBracket, ⟨.bracket, pending⟩ :: outer =>
      .ok ⟨.operator (completeAll term state.pending), pending, outer⟩
  | _, _ => state.refuse lexeme

/-- Read one lexeme in front of others. -/
def State.step
    (state : State)
    (options : ReadingOptions)
    (lexeme : Lexeme)
    (rest : List Lexeme) :
    Except SyntaxError State :=
  match state.mode with
  | .operand => state.beginOperand options lexeme rest
  | .binding binder bound => state.continueBinding options binder bound lexeme
  | .operator term => state.continueOperand term lexeme

/-- The term read, if it may end at the given position. -/
def State.finish (state : State) (position : Nat) : Except SyntaxError Term :=
  match state.mode, state.outer with
  | .operand, _ => .error (.unexpected .expression .endOfInput position)
  | .binding _ [], _ => .error (.unexpected .variable .endOfInput position)
  | .binding _ _, _ => .error (.unexpected (.character '.') .endOfInput position)
  | .operator _, level :: _ =>
      .error (.unexpected level.opening.expectation .endOfInput position)
  | .operator term, [] => .ok (completeAll term state.pending)

/-- Read the rest of the lexemes from a state, the position of their end given. -/
def run
    (options : ReadingOptions)
    (finish : Nat)
    (state : State) :
    List Lexeme → Except SyntaxError Term
  | [] => state.finish finish
  | lexeme :: rest =>
      match state.step options lexeme rest with
      | .ok next => run options finish next rest
      | .error mistake => .error mistake

end Reader

/-- The term that a text denotes under given options. -/
def read (options : ReadingOptions) (text : String) : Except SyntaxError Term := do
  let scan ← Token.scan options.style text
  if scan.lexemes.isEmpty then
    throw (.emptyExpression scan.finish)
  else
    Reader.run options scan.finish Reader.start scan.lexemes

end Term

end TypedLambda
