import Mathlib.Data.List.Forall2
import TypedLambda.Term.Reader

namespace TypedLambda.Grammar

/-!
# The grammar of terms

What may be written, and which term it denotes, without regard to how it is
read. From loose to tight, the categories of expressions are

    equivalence  =  implication  |  equivalence ↔ implication
    implication  =  disjunction  |  disjunction → implication
    disjunction  =  conjunction  |  disjunction ∨ conjunction
    conjunction  =  relation     |  conjunction ∧ relation
    relation     =  unary        |  unary = unary  |  unary ⊆ unary  |  unary ⊂ unary
    unary        =  application  |  ¬ unary  |  binder name ... name . equivalence
    application  =  atom         |  application ( list )
    atom         =  name         |  ( list )  |  [ equivalence ]
    list         =  equivalence  |  list , equivalence

This leaves open where the body of a binder ends: `λx.P(x) ∧ Q(a)` may be an
abstraction or a conjunction. Hence a derivation depends on a condition on
bodies. Any body will do for a text to be well-formed; for the term that it
denotes, a body is to be the longest.
-/

/-- A category of expressions, or the lists of expressions between parentheses. -/
inductive Category where
  | equivalence
  | implication
  | disjunction
  | conjunction
  | relation
  | unary
  | application
  | atom
  | list
  deriving Repr, DecidableEq

namespace Category

/-- The category whose expressions are expressions of this category as well. -/
def tighter? : Category → Option Category
  | .equivalence => some .implication
  | .implication => some .disjunction
  | .disjunction => some .conjunction
  | .conjunction => some .relation
  | .relation => some .unary
  | .unary => some .application
  | .application => some .atom
  | .atom => none
  | .list => none

/-- The expressions with a connective between their operands. -/
def ofConnective : Connective → Category
  | .biconditional => .equivalence
  | .conditional => .implication
  | .disjunction => .disjunction
  | .conjunction => .conjunction

/-- The left operands of a connective. All connectives but the conditional group to the left. -/
def leftOf : Connective → Category
  | .biconditional => .equivalence
  | .conditional => .disjunction
  | .disjunction => .disjunction
  | .conjunction => .conjunction

/-- The right operands of a connective. The conditional groups to the right. -/
def rightOf : Connective → Category
  | .biconditional => .implication
  | .conditional => .implication
  | .disjunction => .conjunction
  | .conjunction => .relation

end Category

/-- The term of a single name of a kind. -/
def named : IdentifierKind → Identifier → Term
  | .variable => Term.var
  | .constant => Term.const

/-- A binder can bind the name, which has its type by convention. -/
def Binds (options : ReadingOptions) (name : String) (bound : Identifier) : Prop :=
  bound.name = name ∧ options.conventions.lookup? name = some (.variable, bound.ty)

/-- Names one after the other, and a dot. -/
def namesAndDot (names : List String) (rest : List Token) : List Token :=
  names.map .identifier ++ .dot :: rest

/--
In front of the given names and a dot, a name stands for a binder: it is the
letter for the binder, or this letter fused with the first name to be bound.
-/
inductive LetterBinder
    (options : ReadingOptions)
    (names : List String) :
    String → Binder → List String → Prop where
  /-- The letter stands by itself. -/
  | alone
      {name : String}
      {letter : Char}
      {binder : Binder}
      (allowed : options.letterBinders = true)
      (spelled : name.toList = [letter])
      (stands : Binder.ofLetter? letter = some binder)
      (nonempty : names ≠ []) :
      LetterBinder options names name binder []
  /-- The letter and a name are one word. -/
  | fused
      {name : String}
      {letter first : Char}
      {more : List Char}
      {binder : Binder}
      (allowed : options.letterBinders = true)
      (spelled : name.toList = letter :: first :: more)
      (stands : Binder.ofLetter? letter = some binder)
      (begins : Text.isLetter first = true) :
      LetterBinder options names name binder [String.ofList (first :: more)]

/-- The tokens start with a binder, the names that it binds and a dot, and go on with the rest. -/
inductive Heads (options : ReadingOptions) :
    Binder → List String → List Token → List Token → Prop where
  /-- The binder is written as a symbol. -/
  | symbol
      {binder : Binder}
      {names : List String}
      {rest : List Token}
      (nonempty : names ≠ []) :
      Heads options binder names (.binder binder :: namesAndDot names rest) rest
  /-- The binder is written as a letter. -/
  | letter
      {binder : Binder}
      {name : String}
      {fused names : List String}
      {rest : List Token}
      (stands : LetterBinder options names name binder fused) :
      Heads options binder (fused ++ names) (.identifier name :: namesAndDot names rest) rest

/--
The tokens start with an expression of a category that denotes a term, and go
on with the rest. The body of every binder satisfies a condition on where it
starts and what remains behind it. A list denotes the tuple of its items.
-/
inductive Derives
    (options : ReadingOptions)
    (Body : List Token → List Token → Prop) :
    Category → List Token → List Token → Term → Prop where
  /-- An expression of a tighter category. -/
  | tighter
      {category next : Category}
      {tokens rest : List Token}
      {term : Term}
      (isNext : category.tighter? = some next)
      (derives : Derives options Body next tokens rest term) :
      Derives options Body category tokens rest term
  /-- Two operands with a connective between them. -/
  | connect
      {connective : Connective}
      {tokens behind rest : List Token}
      {left right : Term}
      (derivesLeft :
        Derives options Body (.leftOf connective) tokens (.connective connective :: behind) left)
      (derivesRight : Derives options Body (.rightOf connective) behind rest right) :
      Derives options Body (.ofConnective connective) tokens rest
        (.connect connective left right)
  /-- An equation. -/
  | equal
      {tokens behind rest : List Token}
      {left right : Term}
      (derivesLeft : Derives options Body .unary tokens (.equals :: behind) left)
      (derivesRight : Derives options Body .unary behind rest right) :
      Derives options Body .relation tokens rest (.equal left right)
  /-- Two sets in a relation. -/
  | relate
      {relation : SetRelation}
      {tokens behind rest : List Token}
      {left right : Term}
      (derivesLeft : Derives options Body .unary tokens (.relation relation :: behind) left)
      (derivesRight : Derives options Body .unary behind rest right) :
      Derives options Body .relation tokens rest (.relate relation left right)
  /-- A negation. -/
  | neg
      {behind rest : List Token}
      {operand : Term}
      (derivesOperand : Derives options Body .unary behind rest operand) :
      Derives options Body .unary (.negation :: behind) rest (.neg operand)
  /-- A binder with the names that it binds and its body. -/
  | bind
      {binder : Binder}
      {names : List String}
      {bound : List Identifier}
      {tokens start rest : List Token}
      {body : Term}
      (heads : Heads options binder names tokens start)
      (binds : List.Forall₂ (Binds options) names bound)
      (derivesBody : Derives options Body .equivalence start rest body)
      (ends : Body start rest) :
      Derives options Body .unary tokens rest (bound.foldr (Term.bind binder) body)
  /-- A function with its arguments. -/
  | app
      {tokens behind rest : List Token}
      {function : Term}
      {arguments : List Term}
      (derivesFunction :
        Derives options Body .application tokens (.openParenthesis :: behind) function)
      (derivesArguments :
        Derives options Body .list behind (.closeParenthesis :: rest) (.tuple arguments)) :
      Derives options Body .application tokens rest
        (.app function (Term.Reader.collect arguments))
  /-- A name, unless it stands for a binder. -/
  | name
      {name : String}
      {kind : IdentifierKind}
      {ty : Ty}
      {rest : List Token}
      (noBinder :
        ∀ binder names start,
          ¬ Heads options binder names (.identifier name :: rest) start)
      (known : options.conventions.lookup? name = some (kind, ty)) :
      Derives options Body .atom (.identifier name :: rest) rest (named kind ⟨name, ty⟩)
  /-- A list in parentheses; a single item stands for itself. -/
  | group
      {behind rest : List Token}
      {items : List Term}
      (derivesItems :
        Derives options Body .list behind (.closeParenthesis :: rest) (.tuple items)) :
      Derives options Body .atom (.openParenthesis :: behind) rest
        (Term.Reader.collect items)
  /-- An expression in brackets. -/
  | bracket
      {behind rest : List Token}
      {term : Term}
      (derives : Derives options Body .equivalence behind (.closeBracket :: rest) term) :
      Derives options Body .atom (.openBracket :: behind) rest term
  /-- A single item. -/
  | single
      {tokens rest : List Token}
      {item : Term}
      (derives : Derives options Body .equivalence tokens rest item) :
      Derives options Body .list tokens rest (.tuple [item])
  /-- Items and one more behind a comma. -/
  | further
      {tokens behind rest : List Token}
      {items : List Term}
      {item : Term}
      (derivesItems : Derives options Body .list tokens (.comma :: behind) (.tuple items))
      (derivesItem : Derives options Body .equivalence behind rest item) :
      Derives options Body .list tokens rest (.tuple (items ++ [item]))

/-- No condition on bodies. -/
def AnyBody (_ _ : List Token) : Prop := True

/--
A body extends as far to the right as possible: no expression that starts where
it does leaves less behind.
-/
def LongestBody (options : ReadingOptions) (start rest : List Token) : Prop :=
  ∀ other term,
    Derives options AnyBody .equivalence start other term → rest.length ≤ other.length

variable {options : ReadingOptions} {Body : List Token → List Token → Prop}
variable {category : Category} {tokens rest : List Token} {term : Term}

/-- What is derived under a condition on bodies is derived without it. -/
theorem Derives.any
    (derives : Derives options Body category tokens rest term) :
    Derives options AnyBody category tokens rest term := by
  induction derives with
  | tighter isNext _ inductionHypothesis =>
      exact .tighter isNext inductionHypothesis
  | connect _ _ leftHypothesis rightHypothesis =>
      exact .connect leftHypothesis rightHypothesis
  | equal _ _ leftHypothesis rightHypothesis =>
      exact .equal leftHypothesis rightHypothesis
  | relate _ _ leftHypothesis rightHypothesis =>
      exact .relate leftHypothesis rightHypothesis
  | neg _ inductionHypothesis =>
      exact .neg inductionHypothesis
  | bind heads binds _ _ inductionHypothesis =>
      exact .bind heads binds inductionHypothesis trivial
  | app _ _ functionHypothesis argumentsHypothesis =>
      exact .app functionHypothesis argumentsHypothesis
  | name noBinder known =>
      exact .name noBinder known
  | group _ inductionHypothesis =>
      exact .group inductionHypothesis
  | bracket _ inductionHypothesis =>
      exact .bracket inductionHypothesis
  | single _ inductionHypothesis =>
      exact .single inductionHypothesis
  | further _ _ itemsHypothesis itemHypothesis =>
      exact .further itemsHypothesis itemHypothesis

namespace Category

/-- How tightly the expressions of a category hold together. -/
def strength : Category → Nat
  | .equivalence => 1
  | .implication => 2
  | .disjunction => 3
  | .conjunction => 4
  | .relation => 5
  | .unary => 6
  | .application => 7
  | .atom => 8
  | .list => 9

theorem strength_pos (category : Category) : 0 < category.strength := by
  cases category <;> decide

theorem strength_eq_succ
    {category next : Category}
    (isNext : category.tighter? = some next) :
    next.strength = category.strength + 1 := by
  cases category <;> cases isNext <;> rfl

theorem strength_ofConnective (connective : Connective) (left right : Term) :
    (ofConnective connective).strength = (Term.connect connective left right).strength := by
  cases connective <;> rfl

theorem strength_leftOf (connective : Connective) :
    (leftOf connective).strength = connective.leftStrength := by
  cases connective <;> rfl

theorem leftStrength_pos (connective : Connective) : 0 < connective.leftStrength :=
  strength_leftOf connective ▸ strength_pos _

theorem leftStrength_le (connective : Connective) :
    connective.leftStrength ≤ application.strength := by
  cases connective <;> decide

theorem strength_rightOf (connective : Connective) :
    (rightOf connective).strength = connective.rightStrength := by
  cases connective <;> rfl

end Category

/-- An expression is an expression of every looser category. -/
theorem Derives.loosen
    (derives : Derives options Body category tokens rest term)
    (looser : Category)
    (isExpression : category ≠ .list)
    (weaker : looser.strength ≤ category.strength) :
    Derives options Body looser tokens rest term := by
  by_cases same : looser.strength = category.strength
  · have isSame : looser = category := by
      cases looser <;> cases category <;> simp [Category.strength] at same ⊢
    exact isSame ▸ derives
  · cases isNext : looser.tighter? with
    | none =>
        cases looser <;> cases category <;> simp_all [Category.strength, Category.tighter?]
    | some next =>
        have stronger := Category.strength_eq_succ isNext
        exact .tighter isNext (derives.loosen next isExpression (by omega))
termination_by category.strength - looser.strength

end TypedLambda.Grammar
