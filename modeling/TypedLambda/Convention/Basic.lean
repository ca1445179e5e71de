import TypedLambda.Ty.Order

namespace TypedLambda

/-!
# Typing conventions

A name is a variable or a constant and has a type by convention: by the
character it starts with. So `x`, `x1` and `x'` are alike. Where several
conventions cover a name, the one stated last counts.
-/

/-- What a name stands for. -/
inductive IdentifierKind where
  /-- A variable, which a binder may bind. -/
  | variable
  /-- A constant. -/
  | constant
  deriving Repr, DecidableEq

/-- The kind and the type of all names that start in an interval of characters. -/
structure Convention where
  first : Char
  last : Char
  kind : IdentifierKind
  ty : Ty
  deriving Repr, DecidableEq

namespace Convention

/-- Whether names starting with a character fall under the convention. -/
def covers (convention : Convention) (character : Char) : Bool :=
  convention.first ≤ character && character ≤ convention.last

end Convention

/-- The conventions in force, in the order in which they were stated. -/
structure Conventions where
  entries : List Convention
  deriving Repr, DecidableEq

namespace Conventions

/-- No convention at all. -/
def empty : Conventions := ⟨[]⟩

/-- State one more convention. -/
def add (conventions : Conventions) (convention : Convention) : Conventions :=
  ⟨conventions.entries ++ [convention]⟩

/-- The kind and the type of a name. -/
def lookup?
    (conventions : Conventions)
    (name : String) :
    Option (IdentifierKind × Ty) :=
  match name.toList with
  | [] => none
  | first :: _ =>
      (conventions.entries.reverse.find? (·.covers first)).map fun convention =>
        (convention.kind, convention.ty)

/--
The usual conventions: entities, truth values, sets of entities and relations
between entities, each under letters of its own.
-/
def standard : Conventions :=
  ⟨[⟨'a', 'e', .constant, .entity⟩,
    ⟨'p', 'q', .variable, .truth⟩,
    ⟨'u', 'z', .variable, .entity⟩,
    ⟨'A', 'Q', .constant, .predicate .entity⟩,
    ⟨'R', 'S', .constant, .predicate (.prod [.entity, .entity])⟩,
    ⟨'X', 'Z', .variable, .predicate .entity⟩]⟩

end Conventions

end TypedLambda
