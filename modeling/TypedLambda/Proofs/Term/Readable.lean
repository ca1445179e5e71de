import TypedLambda.Proofs.Term.Renaming
import TypedLambda.Proofs.Token.Scan
import TypedLambda.Term.Reader

namespace TypedLambda

/-!
# Readable terms

A term can be written down under given options if its names are names of the
style, the conventions give each of them its kind and its type, and tuples have
at least two items.
-/

namespace ReadingOptions

/-- The identifier is a name of the style that has the kind and the type by convention. -/
def Admits
    (options : ReadingOptions)
    (kind : IdentifierKind)
    (identifier : Identifier) : Prop :=
  Token.IsName options.style identifier.name ∧
    options.conventions.lookup? identifier.name = some (kind, identifier.ty)

variable {options : ReadingOptions} {identifier : Identifier}

theorem Admits.identifierTerm_variable
    (admits : options.Admits .variable identifier)
    (position : Nat) :
    options.identifierTerm identifier.name position = .ok (.var identifier) := by
  simp [identifierTerm, admits.2]

theorem Admits.identifierTerm_constant
    (admits : options.Admits .constant identifier)
    (position : Nat) :
    options.identifierTerm identifier.name position = .ok (.const identifier) := by
  simp [identifierTerm, admits.2]

theorem Admits.boundVariable
    (admits : options.Admits .variable identifier)
    (position : Nat) :
    options.boundVariable identifier.name position = .ok identifier := by
  simp [ReadingOptions.boundVariable, admits.2]

end ReadingOptions

namespace Term

mutual

/-- The term can be written down under the options. -/
def Readable (options : ReadingOptions) : Term → Prop
  | .var identifier => options.Admits .variable identifier
  | .const identifier => options.Admits .constant identifier
  | .bind _ bound body => options.Admits .variable bound ∧ body.Readable options
  | .app function argument => function.Readable options ∧ argument.Readable options
  | .tuple items => 2 ≤ items.length ∧ AllReadable options items
  | .neg operand => operand.Readable options
  | .connect _ left right => left.Readable options ∧ right.Readable options
  | .equal left right => left.Readable options ∧ right.Readable options
  | .relate _ left right => left.Readable options ∧ right.Readable options

/-- Every term of a list can be written down. -/
def AllReadable (options : ReadingOptions) : List Term → Prop
  | [] => True
  | term :: rest => term.Readable options ∧ AllReadable options rest

end

section Lists

attribute [local simp] Readable AllReadable

@[simp] theorem allReadable_iff_forall
    {options : ReadingOptions}
    {terms : List Term} :
    AllReadable options terms ↔ ∀ term ∈ terms, term.Readable options := by
  induction terms with
  | nil =>
      simp
  | cons term rest inductionHypothesis =>
      simp [inductionHypothesis]

end Lists

/-- All names in a readable term are names of the style. -/
theorem Readable.isName
    {options : ReadingOptions}
    {term : Term}
    (readable : term.Readable options)
    {name : String}
    (occurs : name ∈ term.nameOccurrences) :
    Token.IsName options.style name := by
  induction term with
  | var identifier
  | const identifier =>
      rw [nameOccurrences, List.mem_singleton] at occurs
      exact occurs ▸ readable.1
  | bind binder bound body inductionHypothesis =>
      obtain ⟨admits, readableBody⟩ := readable
      rcases List.mem_cons.mp occurs with rfl | inBody
      · exact admits.1
      · exact inductionHypothesis readableBody inBody
  | tuple items inductionHypothesis =>
      simp only [Readable, allReadable_iff_forall] at readable
      simp only [nameOccurrences, nameOccurrencesInAll_eq_flatMap,
        List.mem_flatMap] at occurs
      obtain ⟨item, member, inItem⟩ := occurs
      exact inductionHypothesis item member (readable.2 item member) inItem
  | neg operand inductionHypothesis =>
      exact inductionHypothesis readable occurs
  | app _ _ firstHypothesis secondHypothesis
  | connect _ _ _ firstHypothesis secondHypothesis
  | equal _ _ firstHypothesis secondHypothesis
  | relate _ _ _ firstHypothesis secondHypothesis =>
      simp only [nameOccurrences, List.mem_append] at occurs
      rcases occurs with inFirst | inSecond
      · exact firstHypothesis readable.1 inFirst
      · exact secondHypothesis readable.2 inSecond

end Term

end TypedLambda
