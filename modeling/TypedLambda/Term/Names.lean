import TypedLambda.Term.Basic

namespace TypedLambda.Term

/-!
# Names in terms

A variable is bound by the innermost binder around it that has its name,
whatever the types are. The free variables of a term are those that no binder
in it binds; one name may be free with several types.
-/

mutual

/-- Whether a variable with the given name occurs free. -/
def hasFree (name : String) : Term → Bool
  | .var identifier => identifier.name = name
  | .const _ => false
  | .bind _ bound body => bound.name != name && body.hasFree name
  | .app function argument => function.hasFree name || argument.hasFree name
  | .tuple items => anyHasFree name items
  | .neg operand => operand.hasFree name
  | .connect _ left right => left.hasFree name || right.hasFree name
  | .equal left right => left.hasFree name || right.hasFree name
  | .relate _ left right => left.hasFree name || right.hasFree name

/-- Whether a variable with the given name occurs free in some term of a list. -/
def anyHasFree (name : String) : List Term → Bool
  | [] => false
  | term :: rest => term.hasFree name || anyHasFree name rest

end

mutual

/-- The occurrences of variables that neither the term nor the given names bind. -/
def freeOccurrences (scope : List String) : Term → List Identifier
  | .var identifier => if identifier.name ∈ scope then [] else [identifier]
  | .const _ => []
  | .bind _ bound body => body.freeOccurrences (bound.name :: scope)
  | .app function argument =>
      function.freeOccurrences scope ++ argument.freeOccurrences scope
  | .tuple items => freeOccurrencesInAll scope items
  | .neg operand => operand.freeOccurrences scope
  | .connect _ left right => left.freeOccurrences scope ++ right.freeOccurrences scope
  | .equal left right => left.freeOccurrences scope ++ right.freeOccurrences scope
  | .relate _ left right => left.freeOccurrences scope ++ right.freeOccurrences scope

/-- The free occurrences in every term of a list. -/
def freeOccurrencesInAll (scope : List String) : List Term → List Identifier
  | [] => []
  | term :: rest => term.freeOccurrences scope ++ freeOccurrencesInAll scope rest

end

/-- The free variables by name and then by type, each once. -/
def freeVariables (term : Term) : List Identifier :=
  Sorting.listing Identifier.precedes (term.freeOccurrences [])

mutual

/-- Every name in a term, of constants and of bound and free variables. -/
def nameOccurrences : Term → List String
  | .var identifier => [identifier.name]
  | .const identifier => [identifier.name]
  | .bind _ bound body => bound.name :: body.nameOccurrences
  | .app function argument => function.nameOccurrences ++ argument.nameOccurrences
  | .tuple items => nameOccurrencesInAll items
  | .neg operand => operand.nameOccurrences
  | .connect _ left right => left.nameOccurrences ++ right.nameOccurrences
  | .equal left right => left.nameOccurrences ++ right.nameOccurrences
  | .relate _ left right => left.nameOccurrences ++ right.nameOccurrences

/-- The names in every term of a list. -/
def nameOccurrencesInAll : List Term → List String
  | [] => []
  | term :: rest => term.nameOccurrences ++ nameOccurrencesInAll rest

end

/-- The names in ascending order, each once. -/
def names (term : Term) : List String :=
  Sorting.listing Sorting.namePrecedes term.nameOccurrences

mutual

/-- The name of every variable occurrence, bound or free. -/
def variableOccurrences : Term → List String
  | .var identifier => [identifier.name]
  | .const _ => []
  | .bind _ _ body => body.variableOccurrences
  | .app function argument => function.variableOccurrences ++ argument.variableOccurrences
  | .tuple items => variableOccurrencesInAll items
  | .neg operand => operand.variableOccurrences
  | .connect _ left right => left.variableOccurrences ++ right.variableOccurrences
  | .equal left right => left.variableOccurrences ++ right.variableOccurrences
  | .relate _ left right => left.variableOccurrences ++ right.variableOccurrences

/-- The variable occurrences in every term of a list. -/
def variableOccurrencesInAll : List Term → List String
  | [] => []
  | term :: rest => term.variableOccurrences ++ variableOccurrencesInAll rest

end

/-- The names of variable occurrences in ascending order, each once. -/
def variableNames (term : Term) : List String :=
  Sorting.listing Sorting.namePrecedes term.variableOccurrences

/--
The name with as many primes added as it takes to differ from all used names.

A used name that the candidate has met is dropped: the candidates get longer
and never meet it again.
-/
def freshName (used : List String) (name : String) : String :=
  if name ∈ used then
    freshName (used.erase name) (name ++ "'")
  else
    name
termination_by used.length
decreasing_by
  next taken =>
    rw [List.length_erase_of_mem taken]
    exact Nat.sub_lt (List.length_pos_of_mem taken) Nat.one_pos

end TypedLambda.Term
