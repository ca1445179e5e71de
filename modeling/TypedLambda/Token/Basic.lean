import TypedLambda.Operator

namespace TypedLambda

/-!
# Tokens

The written form of a term is a sequence of tokens. A token says what is
written and not how: λ and \ are the same token. A lexeme is a token together
with the position of its first character.
-/

/-- The smallest meaningful part of a written term. -/
inductive Token where
  | binder (binder : Binder)
  | connective (connective : Connective)
  | relation (relation : SetRelation)
  | equals
  | negation
  | dot
  | comma
  | openParenthesis
  | closeParenthesis
  | openBracket
  | closeBracket
  | identifier (name : String)
  deriving Repr, DecidableEq

namespace Token

/-- The logical spelling of a token that is not an identifier. -/
def spelling : Token → List Char
  | .binder operator => operator.symbol .logical
  | .connective operator => operator.symbol .logical
  | .relation operator => operator.symbol .logical
  | .equals => ['=']
  | .negation => negationSymbol .logical
  | .dot => ['.']
  | .comma => [',']
  | .openParenthesis => ['(']
  | .closeParenthesis => [')']
  | .openBracket => ['[']
  | .closeBracket => [']']
  | .identifier name => name.toList

/-- How a message names the token. -/
def text : Token → String
  | .identifier name => "identifier '" ++ name ++ "'"
  | symbol => "'" ++ String.ofList symbol.spelling ++ "'"

instance : ToString Token := ⟨text⟩

end Token

/-- A token and the position, counted in characters from 0, where it starts. -/
structure Lexeme where
  token : Token
  position : Nat
  deriving Repr, DecidableEq

end TypedLambda
