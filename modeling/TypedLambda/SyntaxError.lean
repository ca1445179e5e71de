import TypedLambda.Token.Basic

namespace TypedLambda

/-!
# Syntax errors

What can be wrong with the text of a type or a term. Every error carries the
position of the character it is about, or the length of the text if the text
ends too early.
-/

/-- What could have come next. -/
inductive Expectation where
  /-- One particular character. -/
  | character (character : Char)
  /-- The first character of a type. -/
  | type
  /-- The letter of a type variable. -/
  | typeVariableName
  /-- Nothing more, after a whole type. -/
  | endOfType
  /-- A variable to bind. -/
  | variable
  /-- The first token of a term. -/
  | expression
  /-- A further item of a list, or its end. -/
  | commaOrClose
  /-- Nothing more, after a whole term. -/
  | endOfInput
  deriving Repr, DecidableEq

namespace Expectation

/-- How a message names what was expected. -/
def text : Expectation → String
  | .character expected => "'" ++ expected.toString ++ "'"
  | .type => "type"
  | .typeVariableName => "type variable name"
  | .endOfType => "end of type"
  | .variable => "variable"
  | .expression => "expression"
  | .commaOrClose => "',' or ')'"
  | .endOfInput => "end of input"

end Expectation

/-- What came instead. -/
inductive Found where
  | character (character : Char)
  | token (token : Token)
  | endOfInput
  deriving Repr, DecidableEq

namespace Found

/-- How a message names what was found. -/
def text : Found → String
  | .character found => "'" ++ found.toString ++ "'"
  | .token found => found.text
  | .endOfInput => "end of input"

end Found

/-- A reason why a text is no type or no term. -/
inductive SyntaxError where
  /-- A character that starts no token. -/
  | unexpectedCharacter (character : Char) (position : Nat)
  /-- Something else came than what could have come. -/
  | unexpected (expected : Expectation) (found : Found) (position : Nat)
  /-- A name that no typing convention covers. -/
  | unknownIdentifier (name : String) (position : Nat)
  /-- A constant in the place of a bound variable. -/
  | boundConstant (name : String) (position : Nat)
  /-- A text without any token. -/
  | emptyExpression (position : Nat)
  deriving Repr, DecidableEq

namespace SyntaxError

/-- Where a caret under the text has to point. -/
def position : SyntaxError → Nat
  | .unexpectedCharacter _ position => position
  | .unexpected _ _ position => position
  | .unknownIdentifier _ position => position
  | .boundConstant _ position => position
  | .emptyExpression position => position

/-- The message shown to the user. -/
def message : SyntaxError → String
  | .unexpectedCharacter character position =>
      s!"Unexpected character '{character}' at position {position}"
  | .unexpected expected found position =>
      s!"Expected {expected.text} but found {found.text} at position {position}"
  | .unknownIdentifier name position =>
      s!"No typing convention for identifier '{name}' at position {position}"
  | .boundConstant name position =>
      s!"Cannot bind constant '{name}' at position {position}"
  | .emptyExpression position =>
      s!"Empty expression at position {position}"

end SyntaxError

end TypedLambda
