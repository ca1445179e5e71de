import TypedLambda.Proofs.Term.Congruence
import TypedLambda.Proofs.Term.Renaming

namespace TypedLambda.Term

/-!
# Alpha equivalence

`AlphaEq` is the least congruence that allows a binder to take a new name for
its variable, provided that the name occurs nowhere in the body. It says
nothing of canonical forms. The second half describes it without rules: two
terms are alpha-equivalent exactly if they are the same nameless term, where
every bound occurrence is replaced by the number of binders between it and
its own.
-/

/-- Two terms differ in the names of bound variables only. -/
inductive AlphaEq : Term → Term → Prop where
  /-- Every term is equivalent to itself. -/
  | refl (term : Term) : AlphaEq term term
  /-- The sides may be exchanged. -/
  | symm {left right : Term} : AlphaEq left right → AlphaEq right left
  /-- Equivalences may be chained. -/
  | trans {left middle right : Term} :
      AlphaEq left middle → AlphaEq middle right → AlphaEq left right
  /-- A part may be exchanged for an equivalent one. -/
  | frame (frame : Frame) {left right : Term} :
      AlphaEq left right → AlphaEq (frame.fill left) (frame.fill right)
  /-- A bound variable may take a name that does not occur in the body. -/
  | rename
      (binder : Binder)
      (bound : Identifier)
      (new : String)
      (body : Term) :
      new ∉ body.nameOccurrences →
      AlphaEq (.bind binder bound body)
        (.bind binder ⟨new, bound.ty⟩ (body.rename bound.name new))

/-- Alpha equivalence is a congruence. -/
theorem AlphaEq.isCongruence : IsCongruence AlphaEq where
  refl := .refl
  symm := .symm
  trans := .trans
  frame := .frame

/-- Every congruence that lets bound variables take new names contains alpha equivalence. -/
theorem AlphaEq.least
    {Related : Term → Term → Prop}
    (congruence : IsCongruence Related)
    (rename :
      ∀ (binder : Binder) (bound : Identifier) (new : String) (body : Term),
        new ∉ body.nameOccurrences →
          Related (.bind binder bound body)
            (.bind binder ⟨new, bound.ty⟩ (body.rename bound.name new)))
    {left right : Term}
    (equivalent : AlphaEq left right) :
    Related left right := by
  induction equivalent with
  | refl term =>
      exact congruence.refl term
  | symm _ inductionHypothesis =>
      exact congruence.symm inductionHypothesis
  | trans _ _ firstHypothesis secondHypothesis =>
      exact congruence.trans firstHypothesis secondHypothesis
  | frame frame _ inductionHypothesis =>
      exact congruence.frame frame inductionHypothesis
  | rename binder bound new body fresh =>
      exact rename binder bound new body fresh

/-- A term without names for bound variables. -/
inductive Nameless where
  /-- A bound occurrence: how many binders stand between it and its own. -/
  | bound (index : Nat) (ty : Ty)
  | free (identifier : Identifier)
  | const (identifier : Identifier)
  | bind (binder : Binder) (ty : Ty) (body : Nameless)
  | app (function argument : Nameless)
  | tuple (items : List Nameless)
  | neg (operand : Nameless)
  | connect (connective : Connective) (left right : Nameless)
  | equal (left right : Nameless)
  | relate (relation : SetRelation) (left right : Nameless)

mutual

/-- The nameless form below binders of the given names, the innermost first. -/
def namelessIn (scope : List String) : Term → Nameless
  | .var identifier =>
      match scope.idxOf? identifier.name with
      | some index => .bound index identifier.ty
      | none => .free identifier
  | .const identifier => .const identifier
  | .bind binder bound body =>
      .bind binder bound.ty (body.namelessIn (bound.name :: scope))
  | .app function argument =>
      .app (function.namelessIn scope) (argument.namelessIn scope)
  | .tuple items => .tuple (namelessAllIn scope items)
  | .neg operand => .neg (operand.namelessIn scope)
  | .connect connective left right =>
      .connect connective (left.namelessIn scope) (right.namelessIn scope)
  | .equal left right => .equal (left.namelessIn scope) (right.namelessIn scope)
  | .relate relation left right =>
      .relate relation (left.namelessIn scope) (right.namelessIn scope)

/-- The nameless forms of the terms in a list. -/
def namelessAllIn (scope : List String) : List Term → List Nameless
  | [] => []
  | term :: rest => term.namelessIn scope :: namelessAllIn scope rest

end

/-- The term with every bound occurrence referring to its binder by position. -/
def nameless (term : Term) : Nameless :=
  term.namelessIn []

section NamelessIn

attribute [local simp] namelessIn namelessAllIn

@[simp] theorem namelessAllIn_eq_map (scope : List String) (terms : List Term) :
    namelessAllIn scope terms = terms.map (namelessIn scope) := by
  induction terms with
  | nil =>
      rfl
  | cons term rest inductionHypothesis =>
      simp [inductionHypothesis]

end NamelessIn

/-- The nameless form depends on where the free names are bound, and on nothing else. -/
theorem namelessIn_congr
    {term : Term}
    {scope other : List String}
    (agree :
      ∀ name, term.hasFree name = true →
        scope.idxOf? name = other.idxOf? name) :
    term.namelessIn scope = term.namelessIn other := by
  induction term generalizing scope other with
  | var identifier =>
      have same := agree identifier.name (by simp [hasFree])
      simp only [namelessIn, same]
  | const identifier =>
      rfl
  | bind binder bound body inductionHypothesis =>
      have bodies :
          body.namelessIn (bound.name :: scope) =
            body.namelessIn (bound.name :: other) := by
        apply inductionHypothesis
        intro name free
        by_cases isBound : bound.name = name
        · simp [List.idxOf?_cons, isBound]
        · have outer := agree name (by simp [hasFree, isBound, free])
          simp [List.idxOf?_cons, isBound, outer]
      simp only [namelessIn, bodies]
  | tuple items inductionHypothesis =>
      simp only [namelessIn, namelessAllIn_eq_map, Nameless.tuple.injEq]
      refine List.map_congr_left fun item member =>
        inductionHypothesis item member fun name free => agree name ?_
      simp only [hasFree, anyHasFree_eq_any, List.any_eq_true]
      exact ⟨item, member, free⟩
  | neg operand inductionHypothesis =>
      simp only [namelessIn, inductionHypothesis agree]
  | app _ _ firstHypothesis secondHypothesis
  | connect _ _ _ firstHypothesis secondHypothesis
  | equal _ _ firstHypothesis secondHypothesis
  | relate _ _ _ firstHypothesis secondHypothesis =>
      have first := firstHypothesis fun name free =>
        agree name (by simp [hasFree, free])
      have second := secondHypothesis fun name free =>
        agree name (by simp [hasFree, free])
      simp only [namelessIn, first, second]

/-- A name is found at the same place whatever other name stands in a list. -/
theorem idxOf?_replaced
    {name first second : String}
    (inner outer : List String)
    (notFirst : first ≠ name)
    (notSecond : second ≠ name) :
    (inner ++ first :: outer).idxOf? name =
      (inner ++ second :: outer).idxOf? name := by
  induction inner with
  | nil =>
      simp [List.idxOf?_cons, notFirst, notSecond]
  | cons head tail inductionHypothesis =>
      simp only [List.cons_append, List.idxOf?_cons, inductionHypothesis]

/-- A name that has not come before is found where it stands. -/
theorem idxOf?_append_cons_self
    {name : String}
    (inner outer : List String)
    (new : name ∉ inner) :
    (inner ++ name :: outer).idxOf? name = some inner.length := by
  induction inner with
  | nil =>
      simp [List.idxOf?_cons]
  | cons head tail inductionHypothesis =>
      have different : head ≠ name := fun same => new (by simp [same])
      have later := inductionHypothesis fun member => new (by simp [member])
      simp [List.idxOf?_cons, different, later]

/--
Renaming an occurrence and its binder alike keeps the nameless form, if the
new name occurs nowhere in the term.
-/
theorem namelessIn_rename
    (old : String)
    {new : String}
    {term : Term}
    (inner outer : List String)
    (fresh : new ∉ term.nameOccurrences)
    (oldAbsent : old ∉ inner)
    (newAbsent : new ∉ inner) :
    (term.rename old new).namelessIn (inner ++ new :: outer) =
      term.namelessIn (inner ++ old :: outer) := by
  induction term generalizing inner with
  | var identifier =>
      by_cases same : identifier.name = old
      · simp only [rename, same, ↓reduceIte, namelessIn,
          idxOf?_append_cons_self inner outer newAbsent,
          idxOf?_append_cons_self inner outer oldAbsent]
      · have notNew : new ≠ identifier.name := fun isNew =>
          fresh (by simp [nameOccurrences, isNew])
        simp only [rename, same, ↓reduceIte, namelessIn,
          idxOf?_replaced inner outer notNew (Ne.symm same)]
  | const identifier =>
      rfl
  | bind binder bound body inductionHypothesis =>
      simp only [nameOccurrences, List.mem_cons, not_or] at fresh
      obtain ⟨notBound, fresh⟩ := fresh
      by_cases same : bound.name = old
      · rw [rename, if_pos same]
        simp only [namelessIn, Nameless.bind.injEq, true_and]
        apply namelessIn_congr
        intro name free
        have notNew : new ≠ name := fun isNew =>
          fresh (isNew ▸ mem_nameOccurrences_of_hasFree free)
        by_cases isOld : old = name
        · simp [List.idxOf?_cons, same, isOld]
        · exact idxOf?_replaced (bound.name :: inner) outer notNew isOld
      · rw [rename, if_neg same]
        simp only [namelessIn, Nameless.bind.injEq, true_and]
        exact inductionHypothesis (bound.name :: inner) fresh
          (by simp [oldAbsent, Ne.symm same])
          (by simp [newAbsent, notBound])
  | tuple items inductionHypothesis =>
      simp only [nameOccurrences, nameOccurrencesInAll_eq_flatMap,
        List.mem_flatMap, not_exists, not_and] at fresh
      simp only [rename, renameAll_eq_map, namelessIn, namelessAllIn_eq_map,
        List.map_map, Nameless.tuple.injEq]
      exact List.map_congr_left fun item member =>
        inductionHypothesis item member inner (fresh item member)
          oldAbsent newAbsent
  | neg operand inductionHypothesis =>
      simp only [rename, namelessIn, Nameless.neg.injEq]
      exact inductionHypothesis inner fresh oldAbsent newAbsent
  | app _ _ firstHypothesis secondHypothesis
  | connect _ _ _ firstHypothesis secondHypothesis
  | equal _ _ firstHypothesis secondHypothesis
  | relate _ _ _ firstHypothesis secondHypothesis =>
      simp only [nameOccurrences, List.mem_append, not_or] at fresh
      simp only [rename, namelessIn,
        firstHypothesis inner fresh.1 oldAbsent newAbsent,
        secondHypothesis inner fresh.2 oldAbsent newAbsent]

/-- The nameless form of a term with a hole is made from that of what fills it. -/
theorem namelessIn_fill_congr
    (frame : Frame)
    {left right : Term}
    (scope : List String)
    (same : ∀ inner, left.namelessIn inner = right.namelessIn inner) :
    (frame.fill left).namelessIn scope = (frame.fill right).namelessIn scope := by
  cases frame <;> simp [Frame.fill, namelessIn, same]

/-- Alpha-equivalent terms have the same nameless form, whatever is bound outside. -/
theorem AlphaEq.namelessIn_eq
    {left right : Term}
    (equivalent : AlphaEq left right)
    (scope : List String) :
    left.namelessIn scope = right.namelessIn scope := by
  induction equivalent generalizing scope with
  | refl term =>
      rfl
  | symm _ inductionHypothesis =>
      exact (inductionHypothesis scope).symm
  | trans _ _ firstHypothesis secondHypothesis =>
      exact (firstHypothesis scope).trans (secondHypothesis scope)
  | frame frame _ inductionHypothesis =>
      exact namelessIn_fill_congr frame scope inductionHypothesis
  | rename binder bound new body fresh =>
      have bodies :=
        namelessIn_rename bound.name [] scope fresh
          (by simp) (by simp)
      simp only [List.nil_append] at bodies
      simp only [namelessIn, bodies]

/-- A name found at one place in a list is the one that stands there. -/
theorem eq_of_idxOf?_eq_some
    {scope : List String}
    {left right : String}
    {index : Nat}
    (leftFound : scope.idxOf? left = some index)
    (rightFound : scope.idxOf? right = some index) :
    left = right := by
  induction scope generalizing index with
  | nil =>
      simp at leftFound
  | cons head tail inductionHypothesis =>
      rw [List.idxOf?_cons] at leftFound rightFound
      by_cases isLeft : head = left
      · by_cases isRight : head = right
        · exact isLeft.symm.trans isRight
        · simp only [isLeft, BEq.rfl, ↓reduceIte, Option.some.injEq] at leftFound
          subst leftFound
          simp [isRight] at rightFound
      · by_cases isRight : head = right
        · simp only [isRight, BEq.rfl, ↓reduceIte, Option.some.injEq] at rightFound
          subst rightFound
          simp [isLeft] at leftFound
        · simp only [beq_iff_eq, isLeft, isRight, ↓reduceIte,
            Option.map_eq_some_iff] at leftFound rightFound
          obtain ⟨place, foundLeft, rfl⟩ := leftFound
          obtain ⟨_, foundRight, same⟩ := rightFound
          cases same
          exact inductionHypothesis foundLeft foundRight

/-- Two occurrences with the same nameless form are the same occurrence. -/
theorem eq_of_namelessIn_var_eq
    {left right : Identifier}
    {scope : List String}
    (same :
      (Term.var left).namelessIn scope = (Term.var right).namelessIn scope) :
    left = right := by
  obtain ⟨leftName, leftType⟩ := left
  obtain ⟨rightName, rightType⟩ := right
  simp only [namelessIn] at same
  cases leftFound : scope.idxOf? leftName with
  | none =>
      cases rightFound : scope.idxOf? rightName with
      | none =>
          simpa [leftFound, rightFound] using same
      | some index =>
          simp [leftFound, rightFound] at same
  | some index =>
      cases rightFound : scope.idxOf? rightName with
      | none =>
          simp [leftFound, rightFound] at same
      | some other =>
          simp only [leftFound, rightFound, Nameless.bound.injEq] at same
          obtain ⟨rfl, rfl⟩ := same
          rw [eq_of_idxOf?_eq_some leftFound rightFound]

/-- The constructor that a nameless term is built with. -/
def Nameless.form : Nameless → Form
  | .bound _ _ => .var
  | .free _ => .var
  | .const _ => .const
  | .bind binder _ _ => .bind binder
  | .app _ _ => .app
  | .tuple _ => .tuple
  | .neg _ => .neg
  | .connect connective _ _ => .connect connective
  | .equal _ _ => .equal
  | .relate relation _ _ => .relate relation

/-- A term without names is built with the same constructor. -/
theorem form_namelessIn (scope : List String) (term : Term) :
    (term.namelessIn scope).form = term.form := by
  cases term with
  | var identifier =>
      simp only [namelessIn]
      split <;> rfl
  | _ =>
      rfl

/-- Bodies that agree below their binders agree below one new name for both. -/
theorem namelessIn_rename_eq_of_fresh
    {old otherOld new : String}
    {body otherBody : Term}
    {scope : List String}
    (fresh : new ∉ body.nameOccurrences)
    (otherFresh : new ∉ otherBody.nameOccurrences)
    (same : body.namelessIn (old :: scope) = otherBody.namelessIn (otherOld :: scope)) :
    (body.rename old new).namelessIn (new :: scope) =
      (otherBody.rename otherOld new).namelessIn (new :: scope) := by
  have first := namelessIn_rename old [] scope fresh (by simp) (by simp)
  have second := namelessIn_rename otherOld [] scope otherFresh (by simp) (by simp)
  simp only [List.nil_append] at first second
  rw [first, second, same]

/-- Binders are equivalent if their bodies are after both have taken one new name. -/
theorem AlphaEq.bind_of_rename
    (binder : Binder)
    {bound otherBound : Identifier}
    {new : String}
    {body otherBody : Term}
    (fresh : new ∉ body.nameOccurrences)
    (otherFresh : new ∉ otherBody.nameOccurrences)
    (types : bound.ty = otherBound.ty)
    (equivalent :
      AlphaEq (body.rename bound.name new)
        (otherBody.rename otherBound.name new)) :
    AlphaEq (.bind binder bound body) (.bind binder otherBound otherBody) := by
  have left := AlphaEq.rename binder bound new body fresh
  have right := AlphaEq.rename binder otherBound new otherBody otherFresh
  rw [← types] at right
  have between := equivalent.frame (.bind binder ⟨new, bound.ty⟩)
  exact left.trans (between.trans right.symm)

/--
Terms with the same nameless form below the same binders are alpha-equivalent.

Two binders that agree are both given one name that neither body uses, so that
their bodies can be compared below the same binders again.
-/
theorem alphaEq_of_namelessIn_eq
    {left right : Term}
    (scope : List String)
    (same : left.namelessIn scope = right.namelessIn scope) :
    AlphaEq left right := by
  induction sizeOfLeft : left.size using Nat.strongRecOn
    generalizing left right scope with
  | ind weight inductionHypothesis =>
      have smaller
          {child part other : Term}
          (below : child ∈ left.children)
          (asLarge : part.size = child.size)
          (inner : List String)
          (samePart : part.namelessIn inner = other.namelessIn inner) :
          AlphaEq part other :=
        inductionHypothesis part.size
          (sizeOfLeft ▸ asLarge ▸ size_lt_of_mem_children below)
          inner samePart rfl
      have forms : left.form = right.form := by
        rw [← form_namelessIn scope left, same, form_namelessIn]
      cases sameForm_of_form_eq forms with
      | var identifier other =>
          rw [eq_of_namelessIn_var_eq same]
          exact .refl _
      | const identifier other =>
          simp only [namelessIn, Nameless.const.injEq] at same
          exact same ▸ .refl _
      | bind binder bound otherBound body otherBody =>
          simp only [namelessIn, Nameless.bind.injEq, true_and] at same
          obtain ⟨types, bodies⟩ := same
          have fresh :=
            freshName_notMem
              (body.nameOccurrences ++ otherBody.nameOccurrences) "x"
          generalize freshName _ _ = new at fresh
          rw [List.mem_append, not_or] at fresh
          have renamed :=
            namelessIn_rename_eq_of_fresh fresh.1 fresh.2 bodies
          have equivalent :
              AlphaEq (body.rename bound.name new)
                (otherBody.rename otherBound.name new) :=
            smaller (by simp [children] : body ∈ _)
              (size_rename _ _ _) (new :: scope) renamed
          exact .bind_of_rename binder fresh.1 fresh.2 types equivalent
      | app function otherFunction argument otherArgument =>
          simp only [namelessIn, Nameless.app.injEq] at same
          exact AlphaEq.isCongruence.app
            (smaller (by simp [children]) rfl scope same.1)
            (smaller (by simp [children]) rfl scope same.2)
      | tuple items others =>
          simp only [namelessIn, namelessAllIn_eq_map,
            Nameless.tuple.injEq] at same
          apply AlphaEq.isCongruence.tuple []
          apply forall₂_of_map_eq same
          intro item inItems other _ sameItem
          exact smaller inItems rfl scope sameItem
      | neg operand other =>
          simp only [namelessIn, Nameless.neg.injEq] at same
          exact .frame .neg (smaller (by simp [children]) rfl scope same)
      | connect connective first otherFirst second otherSecond =>
          simp only [namelessIn, Nameless.connect.injEq, true_and] at same
          exact AlphaEq.isCongruence.connect connective
            (smaller (by simp [children]) rfl scope same.1)
            (smaller (by simp [children]) rfl scope same.2)
      | equal first otherFirst second otherSecond =>
          simp only [namelessIn, Nameless.equal.injEq] at same
          exact AlphaEq.isCongruence.equal
            (smaller (by simp [children]) rfl scope same.1)
            (smaller (by simp [children]) rfl scope same.2)
      | relate relation first otherFirst second otherSecond =>
          simp only [namelessIn, Nameless.relate.injEq, true_and] at same
          exact AlphaEq.isCongruence.relate relation
            (smaller (by simp [children]) rfl scope same.1)
            (smaller (by simp [children]) rfl scope same.2)

/-- Alpha equivalence is sameness of nameless forms. -/
theorem alphaEq_iff_nameless_eq {left right : Term} :
    AlphaEq left right ↔ left.nameless = right.nameless :=
  ⟨fun equivalent => equivalent.namelessIn_eq [],
    alphaEq_of_namelessIn_eq []⟩

end TypedLambda.Term
