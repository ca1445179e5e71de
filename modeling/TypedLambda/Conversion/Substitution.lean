import TypedLambda.Term.Basic

namespace TypedLambda.Term

/-!
# Substitution in terms

`substitute` puts a term in the place of the free occurrences of a variable.
It renames nothing, so a binder above such an occurrence captures the free
variables of the term that it binds.
-/

mutual

/-- Replace the free occurrences of a name; below a binder of the name there are none. -/
def substitute (name : String) (replacement : Term) : Term → Term
  | .var identifier => if identifier.name = name then replacement else .var identifier
  | .const identifier => .const identifier
  | .bind binder bound body =>
      if bound.name = name then
        .bind binder bound body
      else
        .bind binder bound (substitute name replacement body)
  | .app function argument =>
      .app (substitute name replacement function) (substitute name replacement argument)
  | .tuple items => .tuple (substituteAll name replacement items)
  | .neg term => .neg (substitute name replacement term)
  | .connect connective left right =>
      .connect connective (substitute name replacement left) (substitute name replacement right)
  | .equal left right =>
      .equal (substitute name replacement left) (substitute name replacement right)
  | .relate relation left right =>
      .relate relation (substitute name replacement left) (substitute name replacement right)

/-- Replace the free occurrences of a name in every term of a list. -/
def substituteAll (name : String) (replacement : Term) : List Term → List Term
  | [] => []
  | term :: rest => substitute name replacement term :: substituteAll name replacement rest

end

mutual

/-- Replace every occurrence of a variable name, whether bound or free. -/
def replaceVariable (name : String) (replacement : Term) : Term → Term
  | .var identifier => if identifier.name = name then replacement else .var identifier
  | .const identifier => .const identifier
  | .bind binder bound body => .bind binder bound (replaceVariable name replacement body)
  | .app function argument =>
      .app (replaceVariable name replacement function) (replaceVariable name replacement argument)
  | .tuple items => .tuple (replaceVariableInAll name replacement items)
  | .neg term => .neg (replaceVariable name replacement term)
  | .connect connective left right =>
      .connect connective (replaceVariable name replacement left)
        (replaceVariable name replacement right)
  | .equal left right =>
      .equal (replaceVariable name replacement left) (replaceVariable name replacement right)
  | .relate relation left right =>
      .relate relation (replaceVariable name replacement left)
        (replaceVariable name replacement right)

/-- Replace every occurrence of a variable name in every term of a list. -/
def replaceVariableInAll (name : String) (replacement : Term) : List Term → List Term
  | [] => []
  | term :: rest =>
      replaceVariable name replacement term :: replaceVariableInAll name replacement rest

end

section Substitute

attribute [local simp] substitute substituteAll

theorem substituteAll_eq_map (name : String) (replacement : Term) (terms : List Term) :
    substituteAll name replacement terms = terms.map (substitute name replacement) := by
  induction terms with
  | nil =>
      rfl
  | cons term rest inductionHypothesis =>
      simp [inductionHypothesis]

end Substitute

end TypedLambda.Term
