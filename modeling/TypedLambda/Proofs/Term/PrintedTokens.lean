import TypedLambda.Proofs.Term.Renaming
import TypedLambda.Proofs.Token.Scan
import TypedLambda.Term.Printer

namespace TypedLambda

/-!
# The tokens of a printed term

A printed term scans as the tokens that its form suggests. The symbols make a
difference in front of bound variables only: a plain letter for a binder is an
identifier by itself where names have a single letter, and otherwise one
together with the name behind it.
-/

open Token (Scans Stops IsName)

namespace Binder

/-- The tokens of a binder with its variable and the dot. -/
def tokens
    (binder : Binder)
    (symbols : SymbolSet)
    (style : Token.NameStyle)
    (name : String) :
    List Token :=
  match symbols, style with
  | .logical, _ => [.binder binder, .identifier name, .dot]
  | .plain, .singleLetter =>
      [.identifier (String.ofList (binder.symbol .plain)), .identifier name, .dot]
  | .plain, .multiLetter =>
      [.identifier (String.ofList (binder.symbol .plain ++ name.toList)), .dot]

end Binder

namespace Term

/-- The tokens of an operand, given its tokens as a term and the strength its place demands. -/
def operandTokens (demanded : Nat) (term : Term) (tokens : List Token) : List Token :=
  if term.strength < demanded then
    .openParenthesis :: tokens ++ [.closeParenthesis]
  else
    tokens

/-- The tokens of a function in front of its argument, given its tokens as a term. -/
def functionTokens : Term → List Token → List Token
  | .var _, tokens => tokens
  | .const _, tokens => tokens
  | .app _ _, tokens => tokens
  | _, tokens => .openBracket :: tokens ++ [.closeBracket]

/-- The tokens of an argument, given its tokens as a term. -/
def argumentTokens : Term → List Token → List Token
  | .tuple _, tokens => tokens
  | _, tokens => .openParenthesis :: tokens ++ [.closeParenthesis]

mutual

/-- The tokens of a printed term. -/
def tokens (symbols : SymbolSet) (style : Token.NameStyle) : Term → List Token
  | .var identifier => [.identifier identifier.name]
  | .const identifier => [.identifier identifier.name]
  | .bind binder bound body =>
      binder.tokens symbols style bound.name ++ body.tokens symbols style
  | .app function argument =>
      functionTokens function (function.tokens symbols style) ++
        argumentTokens argument (argument.tokens symbols style)
  | .tuple [] => [.openParenthesis, .closeParenthesis]
  | .tuple (item :: rest) =>
      .openParenthesis :: item.tokens symbols style ++ furtherTokens symbols style rest ++
        [.closeParenthesis]
  | .neg term => .negation :: operandTokens 6 term (term.tokens symbols style)
  | .connect connective left right =>
      operandTokens connective.leftStrength left (left.tokens symbols style) ++
        .connective connective ::
          operandTokens connective.rightStrength right (right.tokens symbols style)
  | .equal left right =>
      operandTokens 6 left (left.tokens symbols style) ++
        .equals :: operandTokens 6 right (right.tokens symbols style)
  | .relate relation left right =>
      operandTokens 6 left (left.tokens symbols style) ++
        .relation relation :: operandTokens 6 right (right.tokens symbols style)

/-- The tokens of the items after the first one. -/
def furtherTokens (symbols : SymbolSet) (style : Token.NameStyle) :
    List Term → List Token
  | [] => []
  | item :: rest =>
      .comma :: item.tokens symbols style ++ furtherTokens symbols style rest

end

/-- In front of anything that ends a name, the text scans as the tokens. -/
def Prints (style : Token.NameStyle) (text : List Char) (tokens : List Token) : Prop :=
  ∀ rest remaining,
    Stops style rest → Scans style rest remaining →
      Scans style (text ++ rest) (tokens ++ remaining)

namespace Prints

variable {style : Token.NameStyle} {text other : List Char} {tokens others : List Token}

theorem nil : Prints style [] [] :=
  fun _ _ _ scans => scans

/-- A text in front of another one that ends its last name. -/
theorem append
    (first : Prints style text tokens)
    (second : Prints style other others)
    (ends : ∀ rest, Stops style rest → Stops style (other ++ rest)) :
    Prints style (text ++ other) (tokens ++ others) := by
  intro rest remaining stops scans
  rw [List.append_assoc, List.append_assoc]
  exact first _ _ (ends rest stops) (second rest remaining stops scans)

/-- A symbol in front of a text. -/
theorem symbol
    {character : Char}
    {token : Token}
    (found : Token.ofCharacter? character = some token)
    (prints : Prints style text tokens) :
    Prints style (character :: text) (token :: tokens) :=
  fun rest remaining stops scans =>
    .symbol found (prints rest remaining stops scans)

/-- A text between two symbols of which the second one ends its last name. -/
theorem enclosed
    {opening closing : Char}
    {first last : Token}
    (opens : Token.ofCharacter? opening = some first)
    (closes : Token.ofCharacter? closing = some last)
    (ends : Stops style [closing])
    (prints : Prints style text tokens) :
    Prints style (opening :: text ++ [closing]) (first :: tokens ++ [last]) :=
  .append (.symbol opens prints) (.symbol closes .nil) fun _ _ => ends

/-- A name is printed as the identifier that it is. -/
theorem name
    {name : String}
    (isName : IsName style name) :
    Prints style name.toList [.identifier name] :=
  fun _ _ stops scans => .identifier isName stops scans

end Prints

/-- Brackets, separators of items, dots and spaces end a name. -/
theorem stops_cons_of_mem
    {style : Token.NameStyle}
    {character : Char}
    (ends : character ∈ ['(', ')', '[', ']', ',', '.', ' '])
    (rest : List Char) :
    Stops style (character :: rest) := by
  intro first isFirst
  obtain rfl : character = first := by simpa using isFirst
  simp only [List.mem_cons, List.not_mem_nil, or_false] at ends
  rcases ends with rfl | rfl | rfl | rfl | rfl | rfl | rfl <;>
    cases style <;> decide +kernel

section Operators

variable {style : Token.NameStyle} {rest : List Char} {remaining : List Token}

/-- The symbol of a connective and a space scan as the connective. -/
theorem scans_connective
    (symbols : SymbolSet)
    (connective : Connective)
    (scans : Scans style rest remaining) :
    Scans style (connective.symbol symbols ++ ' ' :: rest)
      (.connective connective :: remaining) := by
  have spaced : Scans style (' ' :: rest) remaining :=
    scans.separator (by decide)
  cases symbols with
  | logical =>
      cases connective <;> exact spaced.symbol rfl
  | plain =>
      cases connective with
      | conjunction =>
          exact spaced.symbol rfl
      | disjunction =>
          exact spaced.symbol rfl
      | conditional =>
          exact .cons ['>'] (by decide) (fun position => rfl) spaced
      | biconditional =>
          exact .cons ['-', '>'] (by decide) (fun position => rfl) spaced

/-- The symbol of a set relation and a space scan as the relation. -/
theorem scans_relation
    (symbols : SymbolSet)
    (relation : SetRelation)
    (scans : Scans style rest remaining) :
    Scans style (relation.symbol symbols ++ ' ' :: rest)
      (.relation relation :: remaining) := by
  have spaced : Scans style (' ' :: rest) remaining :=
    scans.separator (by decide)
  cases symbols with
  | logical =>
      cases relation <;> exact spaced.symbol rfl
  | plain =>
      cases relation with
      | subset =>
          exact .cons ['='] (by decide) (fun position => rfl) spaced
      | properSubset =>
          exact .cons [] (by decide) (fun position => rfl) spaced

/-- The sign of an equation and a space scan as the sign. -/
theorem scans_equals
    (scans : Scans style rest remaining) :
    Scans style (['='] ++ ' ' :: rest) (.equals :: remaining) :=
  (scans.separator (by decide)).symbol rfl

end Operators

section Parts

variable {style : Token.NameStyle} {text other : List Char} {tokens others : List Token}

/-- Two operands with an operator between them. -/
theorem Prints.spaced
    {sign : List Char}
    {token : Token}
    (operator :
      ∀ rest remaining, Scans style rest remaining →
        Scans style (sign ++ ' ' :: rest) (token :: remaining))
    (left : Prints style text tokens)
    (right : Prints style other others) :
    Prints style (text ++ spaced sign ++ other) (tokens ++ token :: others) := by
  intro rest remaining stops scans
  have behind := operator _ _ (right rest remaining stops scans)
  have between : Scans style (' ' :: (sign ++ ' ' :: (other ++ rest)))
      (token :: (others ++ remaining)) :=
    behind.separator (by decide)
  have whole := left _ _ (stops_cons_of_mem (by decide) _) between
  simpa [Term.spaced] using whole

/-- An operand in parentheses or without. -/
theorem Prints.operand
    (demanded : Nat)
    (term : Term)
    (prints : Prints style text tokens) :
    Prints style (operand demanded term text)
      (operandTokens demanded term tokens) := by
  unfold Term.operand operandTokens
  split
  · exact .enclosed rfl rfl (stops_cons_of_mem (by decide) _) prints
  · exact prints

/-- A function in brackets or without. -/
theorem Prints.functionPart
    {term : Term}
    (prints : Prints style text tokens) :
    Prints style (functionPart term text) (functionTokens term tokens) := by
  cases term with
  | var | const | app =>
      exact prints
  | _ =>
      exact .enclosed rfl rfl (stops_cons_of_mem (by decide) _) prints

/-- An argument in parentheses of its own or in those of a tuple. -/
theorem Prints.argumentPart
    {term : Term}
    (prints : Prints style text tokens) :
    Prints style (argumentPart term text) (argumentTokens term tokens) := by
  cases term with
  | tuple =>
      exact prints
  | _ =>
      exact .enclosed rfl rfl (stops_cons_of_mem (by decide) _) prints

end Parts

section Binders

variable {name : String} {text : List Char} {tokens : List Token}

/-- The letter for a binder is a name by itself where names have a single letter. -/
theorem isName_binder (binder : Binder) :
    IsName .singleLetter (String.ofList (binder.symbol .plain)) := by
  refine Token.isName_iff.mpr ?_
  cases binder <;> exact ⟨_, [], rfl, by decide +kernel, rfl, rfl⟩

/-- A name of several letters with the letter for a binder in front is such a name again. -/
theorem isName_fused
    (binder : Binder)
    (isName : IsName .multiLetter name) :
    IsName .multiLetter (String.ofList (binder.symbol .plain ++ name.toList)) := by
  obtain ⟨first, rest, spelled, letter, notSingle, whole⟩ :=
    Token.isName_iff.mp isName
  have notLambda : first ≠ 'λ' := by
    intro same
    subst same
    cases notSingle
  have notIota : first ≠ 'ι' := by
    intro same
    subst same
    cases notSingle
  have continuing : Token.NameStyle.multiLetter.continues first = true := by
    simp [Token.NameStyle.continues, letter, notLambda, notIota]
  have reached :
      Token.nameLength .multiLetter (first :: rest) = (first :: rest).length := by
    rw [Token.nameLength_cons, if_pos continuing, whole, List.length_cons]
  rw [spelled]
  refine Token.isName_iff.mpr ?_
  cases binder <;>
    exact ⟨_, first :: rest, String.toList_ofList, by decide +kernel, rfl, reached⟩

/-- A name of a single letter ends where another one starts. -/
theorem stops_name
    (isName : IsName .singleLetter name)
    (rest : List Char) :
    Stops .singleLetter (name.toList ++ rest) := by
  obtain ⟨first, more, spelled, letter, _, _⟩ := Token.isName_iff.mp isName
  rw [spelled]
  intro character isFirst
  obtain rfl : first = character := by simpa using isFirst
  exact ⟨Token.isPlainDigit_eq_false_of_isLetter letter,
    Token.isPrime_eq_false_of_isLetter letter⟩

/-- A binder with its variable in front of its body. -/
theorem Prints.bind
    {style : Token.NameStyle}
    (symbols : SymbolSet)
    (binder : Binder)
    (isName : IsName style name)
    (prints : Prints style text tokens) :
    Prints style (binder.symbol symbols ++ name.toList ++ '.' :: text)
      (binder.tokens symbols style name ++ tokens) := by
  have dotted : Prints style ('.' :: text) (.dot :: tokens) :=
    prints.symbol rfl
  have named :
      Prints style (name.toList ++ '.' :: text) (.identifier name :: .dot :: tokens) :=
    .append (.name isName) dotted fun rest _ => stops_cons_of_mem (by decide) _
  rw [List.append_assoc]
  cases symbols with
  | logical =>
      cases binder <;> exact named.symbol rfl
  | plain =>
      cases style with
      | singleLetter =>
          have letter := Prints.name (isName_binder binder)
          rw [String.toList_ofList] at letter
          have whole := letter.append named fun rest _ => by
            rw [List.append_assoc]
            exact stops_name isName _
          exact whole
      | multiLetter =>
          have fused := Prints.name (isName_fused binder isName)
          rw [String.toList_ofList] at fused
          have whole := fused.append dotted fun rest _ =>
            stops_cons_of_mem (by decide) _
          rw [← List.append_assoc]
          exact whole

end Binders

section Printed

variable {symbols : SymbolSet} {style : Token.NameStyle}

/-- Items behind a first one, each behind a comma. -/
theorem prints_furtherItems
    {items : List Term}
    (inItem :
      ∀ item ∈ items, Prints style (item.chars symbols) (item.tokens symbols style)) :
    Prints style (furtherItems symbols items) (furtherTokens symbols style items) := by
  induction items with
  | nil =>
      exact .nil
  | cons item rest inductionHypothesis =>
      rw [List.forall_mem_cons] at inItem
      have later := inductionHypothesis inItem.2
      refine .append (.symbol rfl inItem.1) later ?_
      cases rest with
      | nil =>
          exact fun _ stops => stops
      | cons next others =>
          exact fun _ _ => stops_cons_of_mem (by decide) _

/-- A printed term scans as its tokens if all names in it are names of the style. -/
theorem prints_chars
    {term : Term}
    (names : ∀ name ∈ term.nameOccurrences, IsName style name) :
    Prints style (term.chars symbols) (term.tokens symbols style) := by
  induction term with
  | var identifier
  | const identifier =>
      exact .name (names identifier.name (by simp [nameOccurrences]))
  | bind binder bound body inductionHypothesis =>
      simp only [nameOccurrences, List.forall_mem_cons] at names
      exact .bind symbols binder names.1 (inductionHypothesis names.2)
  | app function argument functionHypothesis argumentHypothesis =>
      simp only [nameOccurrences, List.forall_mem_append] at names
      refine .append (functionHypothesis names.1).functionPart
        (argumentHypothesis names.2).argumentPart fun rest _ => ?_
      cases argument with
      | tuple items =>
          cases items <;> exact stops_cons_of_mem (by decide) _
      | _ =>
          exact stops_cons_of_mem (by decide) _
  | tuple items inductionHypothesis =>
      simp only [nameOccurrences, nameOccurrencesInAll_eq_flatMap] at names
      have inItem :
          ∀ item ∈ items,
            Prints style (item.chars symbols) (item.tokens symbols style) := by
        intro item member
        exact inductionHypothesis item member fun name occurs =>
          names name (List.mem_flatMap.mpr ⟨item, member, occurs⟩)
      cases items with
      | nil =>
          exact .symbol rfl (.symbol rfl .nil)
      | cons item rest =>
          rw [List.forall_mem_cons] at inItem
          have later := prints_furtherItems inItem.2
          refine .enclosed rfl rfl (stops_cons_of_mem (by decide) _)
            (.append inItem.1 later ?_)
          cases rest with
          | nil =>
              exact fun _ stops => stops
          | cons next others =>
              exact fun _ _ => stops_cons_of_mem (by decide) _
  | neg operand inductionHypothesis =>
      have inside := (inductionHypothesis names).operand 6 operand
      cases symbols <;> exact inside.symbol rfl
  | connect connective left right leftHypothesis rightHypothesis =>
      simp only [nameOccurrences, List.forall_mem_append] at names
      exact .spaced (fun _ _ => scans_connective symbols connective)
        ((leftHypothesis names.1).operand _ _)
        ((rightHypothesis names.2).operand _ _)
  | equal left right leftHypothesis rightHypothesis =>
      simp only [nameOccurrences, List.forall_mem_append] at names
      exact .spaced (fun _ _ => scans_equals)
        ((leftHypothesis names.1).operand _ _)
        ((rightHypothesis names.2).operand _ _)
  | relate relation left right leftHypothesis rightHypothesis =>
      simp only [nameOccurrences, List.forall_mem_append] at names
      exact .spaced (fun _ _ => scans_relation symbols relation)
        ((leftHypothesis names.1).operand _ _)
        ((rightHypothesis names.2).operand _ _)

end Printed

end Term

end TypedLambda
