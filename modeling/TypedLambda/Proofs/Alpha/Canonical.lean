import TypedLambda.Proofs.Alpha.Equivalence
import TypedLambda.Term.Equivalence

namespace TypedLambda.Term

/-!
# Canonical names

The canonical form of a term is its nameless form with names put back: a
bound variable is called after the number of binders around its own. So it
depends on the nameless form alone, and alpha-equivalent terms have the same
canonical form below any binders. In the other direction, a term is
alpha-equivalent to its canonical form, unless a free variable has one of the
names that are put in.
-/

mutual

/-- The term with its binders named after their depth, that of the root being given. -/
def Nameless.named (depth : Nat) : Nameless → Term
  | .bound index ty => .var ⟨canonicalName (depth - 1 - index), ty⟩
  | .free identifier => .var identifier
  | .const identifier => .const identifier
  | .bind binder ty body =>
      .bind binder ⟨canonicalName depth, ty⟩ (body.named (depth + 1))
  | .app function argument => .app (function.named depth) (argument.named depth)
  | .tuple items => .tuple (Nameless.namedAll depth items)
  | .neg operand => .neg (operand.named depth)
  | .connect connective left right =>
      .connect connective (left.named depth) (right.named depth)
  | .equal left right => .equal (left.named depth) (right.named depth)
  | .relate relation left right =>
      .relate relation (left.named depth) (right.named depth)

/-- The named forms of the terms in a list. -/
def Nameless.namedAll (depth : Nat) : List Nameless → List Term
  | [] => []
  | term :: rest => term.named depth :: Nameless.namedAll depth rest

end

section Lists

attribute [local simp] Nameless.named Nameless.namedAll canonicalIn canonicalAllIn

@[simp] theorem Nameless.namedAll_eq_map (depth : Nat) (terms : List Nameless) :
    Nameless.namedAll depth terms = terms.map (Nameless.named depth) := by
  induction terms with
  | nil =>
      rfl
  | cons term rest inductionHypothesis =>
      simp [inductionHypothesis]

@[simp] theorem canonicalAllIn_eq_map (scope : List String) (terms : List Term) :
    canonicalAllIn scope terms = terms.map (canonicalIn scope) := by
  induction terms with
  | nil =>
      rfl
  | cons term rest inductionHypothesis =>
      simp [inductionHypothesis]

end Lists

/-- Counting binders from the outside is counting them from the inside backwards. -/
theorem bindingDepth?_eq_map_idxOf?
    (name : String)
    (scope : List String) :
    bindingDepth? name scope =
      (scope.idxOf? name).map (scope.length - 1 - ·) := by
  induction scope with
  | nil =>
      rfl
  | cons bound outer inductionHypothesis =>
      by_cases same : bound = name
      · simp [bindingDepth?, List.idxOf?_cons, same]
      · simp only [bindingDepth?, same, ↓reduceIte, inductionHypothesis,
          List.idxOf?_cons, beq_iff_eq, Option.map_map, List.length_cons]
        refine congrArg (Option.map · (outer.idxOf? name)) (funext fun index => ?_)
        simp only [Function.comp_apply]
        omega

/-- Canonical forms are nameless forms with names put back. -/
theorem canonicalIn_eq_named
    (scope : List String)
    (term : Term) :
    term.canonicalIn scope = (term.namelessIn scope).named scope.length := by
  induction term generalizing scope with
  | var identifier =>
      simp only [canonicalIn, namelessIn, bindingDepth?_eq_map_idxOf?]
      cases scope.idxOf? identifier.name <;> rfl
  | const identifier =>
      rfl
  | bind binder bound body inductionHypothesis =>
      simp only [canonicalIn, namelessIn, Nameless.named,
        inductionHypothesis (bound.name :: scope), List.length_cons]
  | tuple items inductionHypothesis =>
      simp only [canonicalIn, namelessIn, Nameless.named, canonicalAllIn_eq_map,
        namelessAllIn_eq_map, Nameless.namedAll_eq_map, List.map_map,
        Term.tuple.injEq]
      apply List.map_congr_left
      intro item member
      exact inductionHypothesis item member scope
  | neg operand inductionHypothesis =>
      simp only [canonicalIn, namelessIn, Nameless.named, inductionHypothesis]
  | app _ _ firstHypothesis secondHypothesis
  | connect _ _ _ firstHypothesis secondHypothesis
  | equal _ _ firstHypothesis secondHypothesis
  | relate _ _ _ firstHypothesis secondHypothesis =>
      simp only [canonicalIn, namelessIn, Nameless.named, firstHypothesis,
        secondHypothesis]

/-- Alpha-equivalent terms have the same canonical form, whatever is bound outside. -/
theorem AlphaEq.canonicalIn_eq
    {left right : Term}
    (equivalent : AlphaEq left right)
    (scope : List String) :
    left.canonicalIn scope = right.canonicalIn scope := by
  rw [canonicalIn_eq_named, canonicalIn_eq_named, equivalent.namelessIn_eq]

/-- Different depths have different names. -/
theorem canonicalName_injective : Function.Injective canonicalName := by
  intro first second same
  simp only [canonicalName, String.append_right_inj, Nat.toString_eq_repr] at same
  have digits := congrArg String.toList same
  rw [Nat.toList_repr, Nat.toList_repr] at digits
  have values := congrArg (Nat.ofDigitChars 10 · 0) digits
  simpa [Nat.ofDigitChars_ten_toDigits] using values

/-- The names of a number of binders around each other, the innermost first. -/
def canonicalScope : Nat → List String
  | 0 => []
  | depth + 1 => canonicalName depth :: canonicalScope depth

/-- Only names of depths are in scope. -/
theorem exists_of_mem_canonicalScope
    {name : String}
    {count : Nat}
    (member : name ∈ canonicalScope count) :
    ∃ depth < count, name = canonicalName depth := by
  induction count with
  | zero =>
      simp [canonicalScope] at member
  | succ depth inductionHypothesis =>
      rcases List.mem_cons.mp member with isHead | inRest
      · exact ⟨depth, Nat.lt_succ_self depth, isHead⟩
      · obtain ⟨outer, below, named⟩ := inductionHypothesis inRest
        exact ⟨outer, Nat.lt_succ_of_lt below, named⟩

/-- The name of a depth is found where its binder stands. -/
theorem idxOf?_canonicalScope
    {count index : Nat}
    (inside : index < count) :
    (canonicalScope count).idxOf? (canonicalName (count - 1 - index)) =
      some index := by
  induction count generalizing index with
  | zero =>
      exact absurd inside (Nat.not_lt_zero index)
  | succ depth inductionHypothesis =>
      rw [canonicalScope, List.idxOf?_cons]
      cases index with
      | zero =>
          simp
      | succ outer =>
          have below : outer < depth := Nat.lt_of_succ_lt_succ inside
          have different : depth ≠ depth + 1 - 1 - (outer + 1) := by omega
          have place : depth + 1 - 1 - (outer + 1) = depth - 1 - outer := by omega
          simp only [beq_iff_eq, canonicalName_injective.eq_iff, different,
            ↓reduceIte]
          rw [place, inductionHypothesis below, Option.map_some]

/-- Names are put in so that each refers to the binder it referred to before. -/
theorem namelessIn_canonicalIn
    {term : Term}
    (scope : List String)
    (ordinary :
      ∀ name, term.hasFree name = true → name ∉ scope →
        ∀ depth, name ≠ canonicalName depth) :
    (term.canonicalIn scope).namelessIn (canonicalScope scope.length) =
      term.namelessIn scope := by
  induction term generalizing scope with
  | var identifier =>
      simp only [canonicalIn, namelessIn, bindingDepth?_eq_map_idxOf?]
      cases found : scope.idxOf? identifier.name with
      | none =>
          have unbound : identifier.name ∉ scope :=
            List.idxOf?_eq_none_iff.mp found
          have absent : identifier.name ∉ canonicalScope scope.length := by
            intro member
            obtain ⟨depth, -, named⟩ := exists_of_mem_canonicalScope member
            exact ordinary identifier.name (by simp [hasFree]) unbound depth named
          simp only [Option.map_none, namelessIn, List.idxOf?_eq_none_iff.mpr absent]
      | some index =>
          obtain ⟨inside, -, -⟩ := List.idxOf?_eq_some_iff.mp found
          simp only [Option.map_some, namelessIn, idxOf?_canonicalScope inside]
  | const identifier =>
      rfl
  | bind binder bound body inductionHypothesis =>
      have bodies :
          (body.canonicalIn (bound.name :: scope)).namelessIn
              (canonicalScope (scope.length + 1)) =
            body.namelessIn (bound.name :: scope) := by
        apply inductionHypothesis (bound.name :: scope)
        intro name free unbound
        rw [List.mem_cons, not_or] at unbound
        exact ordinary name
          (by simp [hasFree, free, Ne.symm unbound.1]) unbound.2
      rw [canonicalScope] at bodies
      simp only [canonicalIn, namelessIn, bodies]
  | tuple items inductionHypothesis =>
      simp only [canonicalIn, namelessIn, canonicalAllIn_eq_map,
        namelessAllIn_eq_map, List.map_map, Nameless.tuple.injEq]
      apply List.map_congr_left
      intro item member
      apply inductionHypothesis item member scope
      intro name free
      apply ordinary name
      simp only [hasFree, anyHasFree_eq_any, List.any_eq_true]
      exact ⟨item, member, free⟩
  | neg operand inductionHypothesis =>
      simp only [canonicalIn, namelessIn, inductionHypothesis scope ordinary]
  | app _ _ firstHypothesis secondHypothesis
  | connect _ _ _ firstHypothesis secondHypothesis
  | equal _ _ firstHypothesis secondHypothesis
  | relate _ _ _ firstHypothesis secondHypothesis =>
      have first := firstHypothesis scope fun name free =>
        ordinary name (by simp [hasFree, free])
      have second := secondHypothesis scope fun name free =>
        ordinary name (by simp [hasFree, free])
      simp only [canonicalIn, namelessIn, first, second]

/-- A term is alpha-equivalent to its canonical form. -/
theorem alphaEq_canonical
    {term : Term}
    (ordinary :
      ∀ name, term.hasFree name = true → ∀ depth, name ≠ canonicalName depth) :
    AlphaEq term term.canonical := by
  apply alphaEq_of_namelessIn_eq []
  symm
  apply namelessIn_canonicalIn []
  intro name free _
  exact ordinary name free

/-- Canonical forms change names only, and the new names are those of depths. -/
theorem exists_of_mem_identifiers_canonicalIn
    {term : Term}
    {scope : List String}
    {identifier : Identifier}
    (member : identifier ∈ (term.canonicalIn scope).identifiers) :
    ∃ original ∈ term.identifiers,
      identifier.ty = original.ty ∧
        (identifier.name = original.name ∨
          ∃ depth, identifier.name = canonicalName depth) := by
  induction term generalizing scope with
  | var original =>
      refine ⟨original, by simp [identifiers], ?_⟩
      rw [canonicalIn] at member
      split at member
      · rw [List.mem_singleton.mp member]
        exact ⟨rfl, .inr ⟨_, rfl⟩⟩
      · rw [List.mem_singleton.mp member]
        exact ⟨rfl, .inl rfl⟩
  | const original =>
      rw [List.mem_singleton.mp member]
      exact ⟨original, by simp [identifiers], rfl, .inl rfl⟩
  | bind binder bound body inductionHypothesis =>
      rw [canonicalIn, identifiers, List.mem_cons] at member
      rcases member with rfl | inBody
      · exact ⟨bound, List.mem_cons_self, rfl, .inr ⟨_, rfl⟩⟩
      · obtain ⟨original, mentioned, same⟩ := inductionHypothesis inBody
        exact ⟨original, List.mem_cons_of_mem bound mentioned, same⟩
  | tuple items inductionHypothesis =>
      simp only [canonicalIn, canonicalAllIn_eq_map, identifiers,
        identifiersInAll_eq_flatMap, List.mem_flatMap, List.mem_map] at member ⊢
      obtain ⟨_, ⟨item, inItems, rfl⟩, inItem⟩ := member
      obtain ⟨original, mentioned, same⟩ :=
        inductionHypothesis item inItems inItem
      exact ⟨original, ⟨item, inItems, mentioned⟩, same⟩
  | neg operand inductionHypothesis =>
      exact inductionHypothesis member
  | app _ _ firstHypothesis secondHypothesis
  | connect _ _ _ firstHypothesis secondHypothesis
  | equal _ _ firstHypothesis secondHypothesis
  | relate _ _ _ firstHypothesis secondHypothesis =>
      simp only [canonicalIn, identifiers, List.mem_append] at member ⊢
      rcases member with inFirst | inSecond
      · obtain ⟨original, mentioned, same⟩ := firstHypothesis inFirst
        exact ⟨original, .inl mentioned, same⟩
      · obtain ⟨original, mentioned, same⟩ := secondHypothesis inSecond
        exact ⟨original, .inr mentioned, same⟩

/-- The name of a depth is a sign followed by digits. -/
theorem mem_toList_canonicalName
    {depth : Nat}
    {character : Char}
    (member : character ∈ (canonicalName depth).toList) :
    character = '#' ∨ character.isDigit = true := by
  rw [canonicalName, String.toList_append, List.mem_append] at member
  rcases member with isSign | isDigit
  · exact .inl (by simpa using isSign)
  · rw [Nat.toString_eq_repr, Nat.toList_repr] at isDigit
    exact .inr (Nat.isDigit_of_mem_toDigits (by decide) (by decide) isDigit)

end TypedLambda.Term
