import TypedLambda.SyntaxError
import TypedLambda.Text.Letter

namespace TypedLambda.Token

/-!
# Scanning

A text is cut into lexemes from left to right. Spaces, tabs and line ends
separate lexemes and are otherwise ignored. Most tokens are a single
character; `-` has to be followed by `>`, and `<` may be followed by `=` or by
`->`. An identifier starts with a letter other than λ and ι. What follows the
letter depends on the style of names, and any number of primes may end it.

The scan takes one character at a time. When a token is longer than its first
character, the characters that belong to it are passed over.
-/

/-- How far an identifier reaches. -/
inductive NameStyle where
  /-- A letter and the digits behind it: `Pxy` is three names. -/
  | singleLetter
  /-- A word of letters, numerals and underscores. -/
  | multiLetter
  deriving Repr, DecidableEq

/-- The lexemes of a text and the position where it ends. -/
structure Scan where
  lexemes : List Lexeme
  finish : Nat
  deriving Repr, DecidableEq

/-- Whether a character only separates lexemes. -/
def isSeparator (character : Char) : Bool :=
  character == ' ' || character == '\t' || character == '\r' || character == '\n'

/-- The token that a character is by itself. -/
def ofCharacter? : Char → Option Token
  | 'λ' => some (.binder .lambda)
  | '\\' => some (.binder .lambda)
  | '∀' => some (.binder .universal)
  | '∃' => some (.binder .existential)
  | 'ι' => some (.binder .description)
  | '.' => some .dot
  | ',' => some .comma
  | '(' => some .openParenthesis
  | ')' => some .closeParenthesis
  | '[' => some .openBracket
  | ']' => some .closeBracket
  | '¬' => some .negation
  | '~' => some .negation
  | '∧' => some (.connective .conjunction)
  | '&' => some (.connective .conjunction)
  | '∨' => some (.connective .disjunction)
  | '|' => some (.connective .disjunction)
  | '→' => some (.connective .conditional)
  | '↔' => some (.connective .biconditional)
  | '=' => some .equals
  | '⊆' => some (.relation .subset)
  | '⊂' => some (.relation .properSubset)
  | _ => none

/-- Whether a character continues an identifier; primes come after all these. -/
def NameStyle.continues (style : NameStyle) (character : Char) : Bool :=
  match style with
  | .singleLetter => Text.isPlainDigit character
  | .multiLetter =>
      ((Text.isLetter character || Text.isNumeral character) &&
        character != 'λ' && character != 'ι') || character == '_'

/-- Whether a character is a prime. -/
def isPrime (character : Char) : Bool :=
  character == '\x27'

/-- How many characters belong to an identifier after its first letter. -/
def nameLength (style : NameStyle) (rest : List Char) : Nat :=
  (rest.takeWhile style.continues).length +
    ((rest.dropWhile style.continues).takeWhile isPrime).length

/-- Demand that `>` comes next, at the given position. -/
def demandArrowHead
    (position : Nat) :
    List Char → Except SyntaxError Unit
  | [] => .error (.unexpected (.character '>') .endOfInput position)
  | character :: _ =>
      if character = '>' then
        .ok ()
      else
        .error (.unexpectedCharacter character position)

/--
The token that starts with a character, and how many of the characters behind
it belong to the token.
-/
def front
    (style : NameStyle)
    (position : Nat)
    (character : Char)
    (rest : List Char) :
    Except SyntaxError (Token × Nat) :=
  match ofCharacter? character with
  | some token => .ok (token, 0)
  | none =>
      if character = '-' then do
        demandArrowHead (position + 1) rest
        return (.connective .conditional, 1)
      else if character = '<' then
        match rest with
        | '-' :: rest => do
            demandArrowHead (position + 2) rest
            return (.connective .biconditional, 2)
        | '=' :: _ => .ok (.relation .subset, 1)
        | _ => .ok (.relation .properSubset, 0)
      else if Text.isLetter character then
        let further := nameLength style rest
        .ok (.identifier (String.ofList (character :: rest.take further)), further)
      else
        .error (.unexpectedCharacter character position)

/-- Scan a text whose next character has the given position, passing over some characters. -/
def scanFrom
    (style : NameStyle) :
    (position passed : Nat) → List Char → Except SyntaxError Scan
  | position, _, [] => .ok ⟨[], position⟩
  | position, passed + 1, _ :: rest => scanFrom style (position + 1) passed rest
  | position, 0, character :: rest =>
      if isSeparator character then
        scanFrom style (position + 1) 0 rest
      else do
        let (token, further) ← front style position character rest
        let scan ← scanFrom style (position + 1) further rest
        return ⟨⟨token, position⟩ :: scan.lexemes, scan.finish⟩

/-- The lexemes of a text, or its first character that fits into none. -/
def scan (style : NameStyle) (text : String) : Except SyntaxError Scan :=
  scanFrom style 0 0 text.toList

end TypedLambda.Token
