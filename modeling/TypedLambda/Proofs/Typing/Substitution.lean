import TypedLambda.Proofs.Conversion.Capture
import TypedLambda.Proofs.Typing.Annotation

namespace TypedLambda

/-!
# Typing and substitution

Putting a term in the place of a variable of its type keeps the type of the
whole, as long as nothing is captured. Giving a binder and the occurrences
that it binds another name keeps it too, and so does replacing a part by
another one of the same type.
-/

namespace Scope

variable {scope : Scope} {bound other : Identifier}

/-- Of two binders for the same name the inner one counts. -/
theorem enter_enter_of_eq
    (same : bound.name = other.name) :
    (scope.enter bound).enter other = scope.enter other := by
  funext name
  simp only [enter_apply, same]
  split <;> rfl

/-- Binders for different names may change places. -/
theorem enter_enter_comm
    (different : bound.name ≠ other.name) :
    (scope.enter bound).enter other = (scope.enter other).enter bound := by
  funext name
  simp only [enter_apply]
  grind

end Scope

namespace Term

namespace Typed

variable {scope : Scope} {term : Term} {ty : Ty}

/-- What is bound matters for free variables only. -/
theorem congr
    {other : Scope}
    (typed : Typed scope term ty)
    (agree : ∀ name, term.hasFree name = true → scope name = other name) :
    Typed other term ty :=
  ⟨typed.monomorphic, typed.annotated.congr agree, typed.hasType⟩

/-- A binder for a name that is not free makes no difference. -/
theorem enter
    {bound : Identifier}
    (typed : Typed scope term ty)
    (absent : term.hasFree bound.name = false) :
    Typed (scope.enter bound) term ty := by
  apply typed.congr
  intro name free
  have different : name ≠ bound.name := by
    intro same
    subst same
    simp [absent] at free
  simp [different]

/-- A binder for a name that is not free made no difference. -/
theorem leave
    {bound : Identifier}
    (typed : Typed (scope.enter bound) term ty)
    (absent : term.hasFree bound.name = false) :
    Typed scope term ty := by
  apply typed.congr
  intro name free
  have different : name ≠ bound.name := by
    intro same
    subst same
    simp [absent] at free
  simp [different]

/-- What takes each item of a tuple to one of the same type does so for their types in a row. -/
theorem map_items
    {other : Scope}
    {change : Term → Term}
    {items : List Term}
    {factors : List Ty}
    (ofItems : List.Forall₂ (Typed scope) items factors)
    (inItem :
      ∀ item ∈ items, ∀ factor,
        Typed scope item factor → Typed other (change item) factor) :
    List.Forall₂ (Typed other) (items.map change) factors := by
  rw [List.forall₂_map_left_iff]
  have members :
      List.Forall₂ (fun item factor => item ∈ items ∧ Typed scope item factor)
        items factors :=
    (List.forall₂_and_left _ _).mpr ⟨fun _ member => member, ofItems⟩
  exact members.imp fun item factor both => inItem item both.1 factor both.2

/-- A term that takes the place of a variable of its type keeps the type of the whole. -/
theorem substitute
    {bound : Identifier}
    {replacement : Term}
    (typed : Typed (scope.enter bound) term ty)
    (replacementTyped : Typed scope replacement bound.ty)
    (safe : ¬Captures bound.name replacement term) :
    Typed scope (substitute bound.name replacement term) ty := by
  induction term generalizing scope ty with
  | var identifier =>
      obtain ⟨ground, agrees, rfl⟩ := var_iff.mp typed
      rw [Term.substitute]
      by_cases same : identifier.name = bound.name
      · rw [if_pos same]
        have sameType : bound.ty = identifier.ty :=
          agrees bound.ty (by simp [same])
        exact sameType ▸ replacementTyped
      · rw [if_neg same]
        exact typed.leave (by simpa [hasFree] using same)
  | const identifier =>
      exact const_iff.mpr (const_iff.mp typed)
  | bind binder other body inductionHypothesis =>
      obtain ⟨inner, ground, inBody, rule⟩ := bind_iff.mp typed
      rw [captures_bind_iff, not_and, not_or, not_and] at safe
      rw [Term.substitute]
      by_cases same : other.name = bound.name
      · rw [if_pos same]
        rw [Scope.enter_enter_of_eq same.symm] at inBody
        exact bind_iff.mpr ⟨inner, ground, inBody, rule⟩
      · rw [if_neg same]
        rw [Scope.enter_enter_comm (Ne.symm same)] at inBody
        obtain ⟨safeBelow, notCapturing⟩ := safe same
        refine bind_iff.mpr ⟨inner, ground, ?_, rule⟩
        by_cases occurs : body.hasFree bound.name = true
        · have outside : replacement.hasFree other.name = false := by
            simpa using notCapturing occurs
          exact inductionHypothesis inBody (replacementTyped.enter outside) safeBelow
        · rw [Bool.not_eq_true] at occurs
          rw [substitute_eq_self occurs]
          exact inBody.leave occurs
  | tuple items inductionHypothesis =>
      obtain ⟨factors, ofItems, rfl⟩ := tuple_iff.mp typed
      rw [captures_tuple_iff] at safe
      rw [Term.substitute, substituteAll_eq_map]
      refine tuple_iff.mpr ⟨factors, map_items ofItems ?_, rfl⟩
      intro item member factor ofItem
      exact inductionHypothesis item member ofItem replacementTyped
        fun captured => safe ⟨item, member, captured⟩
  | neg operand inductionHypothesis =>
      obtain ⟨ofOperand, rfl⟩ := neg_iff.mp typed
      rw [captures_neg_iff] at safe
      exact neg_iff.mpr
        ⟨inductionHypothesis ofOperand replacementTyped safe, rfl⟩
  | app function argument functionHypothesis argumentHypothesis =>
      obtain ⟨domain, ofFunction, ofArgument⟩ := app_iff.mp typed
      rw [captures_app_iff, not_or] at safe
      exact app_iff.mpr
        ⟨domain, functionHypothesis ofFunction replacementTyped safe.1,
          argumentHypothesis ofArgument replacementTyped safe.2⟩
  | connect connective left right leftHypothesis rightHypothesis =>
      obtain ⟨ofLeft, ofRight, rfl⟩ := connect_iff.mp typed
      rw [captures_connect_iff, not_or] at safe
      exact connect_iff.mpr
        ⟨leftHypothesis ofLeft replacementTyped safe.1,
          rightHypothesis ofRight replacementTyped safe.2, rfl⟩
  | equal left right leftHypothesis rightHypothesis =>
      obtain ⟨side, ofLeft, ofRight, rfl⟩ := equal_iff.mp typed
      rw [captures_equal_iff, not_or] at safe
      exact equal_iff.mpr
        ⟨side, leftHypothesis ofLeft replacementTyped safe.1,
          rightHypothesis ofRight replacementTyped safe.2, rfl⟩
  | relate relation left right leftHypothesis rightHypothesis =>
      obtain ⟨element, ofLeft, ofRight, rfl⟩ := relate_iff.mp typed
      rw [captures_relate_iff, not_or] at safe
      exact relate_iff.mpr
        ⟨element, leftHypothesis ofLeft replacementTyped safe.1,
          rightHypothesis ofRight replacementTyped safe.2, rfl⟩

/-- A binder and the occurrences that it binds may have another name. -/
theorem rename_binder
    {binder : Binder}
    {bound : Identifier}
    {body : Term}
    {new : String}
    (typed : Typed scope (.bind binder bound body) ty)
    (fresh : new ∉ body.nameOccurrences) :
    Typed scope
      (.bind binder ⟨new, bound.ty⟩
        (Term.substitute bound.name (.var ⟨new, bound.ty⟩) body)) ty := by
  obtain ⟨inner, ground, inBody, rule⟩ := bind_iff.mp typed
  refine bind_iff.mpr ⟨inner, ground, ?_, rule⟩
  have newAbsent : body.hasFree new = false := by
    rw [← Bool.not_eq_true]
    exact fun free => fresh (mem_nameOccurrences_of_hasFree free)
  have newTyped :
      Typed (scope.enter ⟨new, bound.ty⟩) (.var ⟨new, bound.ty⟩) bound.ty :=
    var_iff.mpr ⟨ground, by simp, rfl⟩
  have safe : ¬Captures bound.name (.var ⟨new, bound.ty⟩) body := by
    rintro ⟨context, _, rfl, _, other, isBound, free⟩
    have isNew : new = other := by simpa [hasFree] using free
    exact fresh (Context.mem_nameOccurrences_of_mem_boundNames (isNew ▸ isBound))
  refine Typed.substitute ?_ newTyped safe
  by_cases same : new = bound.name
  · rw [Scope.enter_enter_of_eq same]
    exact inBody
  · rw [Scope.enter_enter_comm same]
    exact inBody.enter newAbsent

/-- An item of a tuple may be replaced by another one of its type. -/
theorem exists_typed_item
    {before after : List Term}
    {factors : List Ty}
    (ofItems : List.Forall₂ (Typed scope) (before ++ term :: after) factors) :
    ∃ factor, Typed scope term factor ∧
      ∀ other, Typed scope other factor →
        List.Forall₂ (Typed scope) (before ++ other :: after) factors := by
  induction before generalizing factors with
  | nil =>
      obtain ⟨factor, rest, ofTerm, ofRest, rfl⟩ :=
        List.forall₂_cons_left_iff.mp ofItems
      exact ⟨factor, ofTerm, fun other ofOther => .cons ofOther ofRest⟩
  | cons head tail inductionHypothesis =>
      obtain ⟨first, rest, ofHead, ofRest, rfl⟩ :=
        List.forall₂_cons_left_iff.mp ofItems
      obtain ⟨factor, ofTerm, replaced⟩ := inductionHypothesis ofRest
      exact ⟨factor, ofTerm, fun other ofOther =>
        .cons ofHead (replaced other ofOther)⟩

/-- A term directly below the root may be replaced by another one of its type. -/
theorem exists_typed_hole
    {frame : Frame}
    (typed : Typed scope (frame.fill term) ty) :
    ∃ inner innerType, Typed inner term innerType ∧
      ∀ other, Typed inner other innerType →
        Typed scope (frame.fill other) ty := by
  cases frame with
  | bind binder bound =>
      obtain ⟨inner, ground, inBody, rule⟩ := bind_iff.mp typed
      exact ⟨_, inner, inBody, fun other ofOther =>
        bind_iff.mpr ⟨inner, ground, ofOther, rule⟩⟩
  | function argument =>
      obtain ⟨domain, ofFunction, ofArgument⟩ := app_iff.mp typed
      exact ⟨_, _, ofFunction, fun other ofOther =>
        app_iff.mpr ⟨domain, ofOther, ofArgument⟩⟩
  | argument operator =>
      obtain ⟨domain, ofFunction, ofArgument⟩ := app_iff.mp typed
      exact ⟨_, _, ofArgument, fun other ofOther =>
        app_iff.mpr ⟨domain, ofFunction, ofOther⟩⟩
  | item before after =>
      obtain ⟨factors, ofItems, rfl⟩ := tuple_iff.mp typed
      obtain ⟨factor, ofTerm, replaced⟩ := exists_typed_item ofItems
      exact ⟨_, factor, ofTerm, fun other ofOther =>
        tuple_iff.mpr ⟨factors, replaced other ofOther, rfl⟩⟩
  | neg =>
      obtain ⟨ofOperand, rfl⟩ := neg_iff.mp typed
      exact ⟨_, _, ofOperand, fun other ofOther =>
        neg_iff.mpr ⟨ofOther, rfl⟩⟩
  | connectLeft connective right =>
      obtain ⟨ofLeft, ofRight, rfl⟩ := connect_iff.mp typed
      exact ⟨_, _, ofLeft, fun other ofOther =>
        connect_iff.mpr ⟨ofOther, ofRight, rfl⟩⟩
  | connectRight connective left =>
      obtain ⟨ofLeft, ofRight, rfl⟩ := connect_iff.mp typed
      exact ⟨_, _, ofRight, fun other ofOther =>
        connect_iff.mpr ⟨ofLeft, ofOther, rfl⟩⟩
  | equalLeft right =>
      obtain ⟨side, ofLeft, ofRight, rfl⟩ := equal_iff.mp typed
      exact ⟨_, side, ofLeft, fun other ofOther =>
        equal_iff.mpr ⟨side, ofOther, ofRight, rfl⟩⟩
  | equalRight left =>
      obtain ⟨side, ofLeft, ofRight, rfl⟩ := equal_iff.mp typed
      exact ⟨_, side, ofRight, fun other ofOther =>
        equal_iff.mpr ⟨side, ofLeft, ofOther, rfl⟩⟩
  | relateLeft relation right =>
      obtain ⟨element, ofLeft, ofRight, rfl⟩ := relate_iff.mp typed
      exact ⟨_, _, ofLeft, fun other ofOther =>
        relate_iff.mpr ⟨element, ofOther, ofRight, rfl⟩⟩
  | relateRight relation left =>
      obtain ⟨element, ofLeft, ofRight, rfl⟩ := relate_iff.mp typed
      exact ⟨_, _, ofRight, fun other ofOther =>
        relate_iff.mpr ⟨element, ofLeft, ofOther, rfl⟩⟩

/-- A part of a term may be replaced by another one of its type. -/
theorem exists_typed_part
    {context : Context}
    (typed : Typed scope (context.fill term) ty) :
    ∃ inner innerType, Typed inner term innerType ∧
      ∀ other, Typed inner other innerType →
        Typed scope (context.fill other) ty := by
  induction context generalizing scope ty with
  | nil =>
      exact ⟨scope, ty, typed, fun _ ofOther => ofOther⟩
  | cons frame rest inductionHypothesis =>
      obtain ⟨middle, middleType, ofMiddle, inFrame⟩ := exists_typed_hole typed
      obtain ⟨inner, innerType, ofTerm, inRest⟩ := inductionHypothesis ofMiddle
      exact ⟨inner, innerType, ofTerm, fun other ofOther =>
        inFrame _ (inRest other ofOther)⟩

end Typed

end Term

end TypedLambda
