import TypedLambda.Conversion.Redex
import TypedLambda.Proofs.Term.Renaming

namespace TypedLambda

/-!
# Places in terms

What surrounds a place determines which names are bound there, which names
occur around it and which types; none of this depends on the term that stands
in the place.
-/

namespace Frame

/-- The name that a frame binds in its hole. -/
def boundName? : Frame → Option String
  | .bind _ bound => some bound.name
  | _ => none

end Frame

namespace Context

/-- The names bound around a place. -/
def boundNames (context : Context) : List String :=
  context.filterMap Frame.boundName?

/-- A name is bound around a place by the outermost frame or by a further one. -/
theorem mem_boundNames_cons
    {name : String}
    {frame : Frame}
    {context : Context} :
    name ∈ Context.boundNames (frame :: context) ↔
      frame.boundName? = some name ∨ name ∈ context.boundNames := by
  simp [boundNames, List.mem_filterMap]

end Context

namespace Term

/-- The terms directly below the root are those that fill a frame around them to the term. -/
theorem mem_children_iff {child term : Term} :
    child ∈ term.children ↔ ∃ frame : Frame, frame.fill child = term := by
  constructor
  · intro member
    cases term with
    | var identifier =>
        simp [children] at member
    | const identifier =>
        simp [children] at member
    | bind binder bound body =>
        simp only [children, List.mem_singleton] at member
        exact ⟨.bind binder bound, by rw [member]; rfl⟩
    | app function argument =>
        simp only [children, List.mem_cons, List.not_mem_nil, or_false] at member
        rcases member with rfl | rfl
        · exact ⟨.function argument, rfl⟩
        · exact ⟨.argument function, rfl⟩
    | tuple items =>
        obtain ⟨before, after, shape⟩ := List.append_of_mem member
        exact ⟨.item before after, congrArg Term.tuple shape.symm⟩
    | neg operand =>
        simp only [children, List.mem_singleton] at member
        exact ⟨.neg, by rw [member]; rfl⟩
    | connect connective left right =>
        simp only [children, List.mem_cons, List.not_mem_nil, or_false] at member
        rcases member with rfl | rfl
        · exact ⟨.connectLeft connective right, rfl⟩
        · exact ⟨.connectRight connective left, rfl⟩
    | equal left right =>
        simp only [children, List.mem_cons, List.not_mem_nil, or_false] at member
        rcases member with rfl | rfl
        · exact ⟨.equalLeft right, rfl⟩
        · exact ⟨.equalRight left, rfl⟩
    | relate relation left right =>
        simp only [children, List.mem_cons, List.not_mem_nil, or_false] at member
        rcases member with rfl | rfl
        · exact ⟨.relateLeft relation right, rfl⟩
        · exact ⟨.relateRight relation left, rfl⟩
  · rintro ⟨frame, rfl⟩
    cases frame <;> simp [Frame.fill, children]

/-- The term that fills a frame is smaller than the whole. -/
theorem size_lt_size_fill
    (frame : Frame)
    (term : Term) :
    term.size < (frame.fill term).size :=
  size_lt_of_mem_children (mem_children_iff.mpr ⟨frame, rfl⟩)

/-- What is free in a part is free in the whole unless the frame binds it. -/
theorem hasFree_fill
    {frame : Frame}
    {name : String}
    {term : Term}
    (unbound : frame.boundName? ≠ some name)
    (free : term.hasFree name = true) :
    (frame.fill term).hasFree name = true := by
  cases frame <;> simp_all [Frame.fill, Frame.boundName?, hasFree]

end Term

namespace Frame

/-- Change the types of all identifiers around the hole. -/
def mapTypes (change : Ty → Ty) : Frame → Frame
  | .bind binder bound => .bind binder ⟨bound.name, change bound.ty⟩
  | .function operand => .function (operand.mapTypes change)
  | .argument operator => .argument (operator.mapTypes change)
  | .item before after =>
      .item (before.map (Term.mapTypes change)) (after.map (Term.mapTypes change))
  | .neg => .neg
  | .connectLeft connective right => .connectLeft connective (right.mapTypes change)
  | .connectRight connective left => .connectRight connective (left.mapTypes change)
  | .equalLeft right => .equalLeft (right.mapTypes change)
  | .equalRight left => .equalRight (left.mapTypes change)
  | .relateLeft relation right => .relateLeft relation (right.mapTypes change)
  | .relateRight relation left => .relateRight relation (left.mapTypes change)

theorem mapTypes_fill
    (change : Ty → Ty)
    (frame : Frame)
    (term : Term) :
    (frame.fill term).mapTypes change =
      (frame.mapTypes change).fill (term.mapTypes change) := by
  cases frame <;> simp [fill, mapTypes, Term.mapTypes]

end Frame

namespace Context

/-- A change of types goes through the nodes around a place. -/
theorem mapTypes_fill
    (change : Ty → Ty)
    (context : Context)
    (term : Term) :
    (Context.fill context term).mapTypes change =
      Context.fill (context.map (Frame.mapTypes change)) (term.mapTypes change) := by
  induction context with
  | nil =>
      rfl
  | cons frame rest inductionHypothesis =>
      simp only [fill_cons, List.map_cons, Frame.mapTypes_fill,
        inductionHypothesis]

/-- The names around a place are the same whatever stands in it. -/
theorem exists_outerNames (context : Context) :
    ∃ outer : List String, ∀ (term : Term) (name : String),
      name ∈ (Context.fill context term).nameOccurrences ↔
        name ∈ outer ∨ name ∈ term.nameOccurrences := by
  have ofFrame (frame : Frame) :
      ∃ outer : List String, ∀ (term : Term) (name : String),
        name ∈ (frame.fill term).nameOccurrences ↔
          name ∈ outer ∨ name ∈ term.nameOccurrences := by
    cases frame with
    | bind binder bound =>
        exact ⟨[bound.name], by simp [Frame.fill, Term.nameOccurrences]⟩
    | neg =>
        exact ⟨[], by simp [Frame.fill, Term.nameOccurrences]⟩
    | item before after =>
        refine ⟨(before ++ after).flatMap Term.nameOccurrences, fun term name => ?_⟩
        simp only [Frame.fill, Term.nameOccurrences,
          Term.nameOccurrencesInAll_eq_flatMap, List.flatMap_append,
          List.flatMap_cons, List.mem_append]
        rw [or_assoc, or_comm (a := name ∈ term.nameOccurrences)]
    | argument left
    | connectRight _ left
    | equalRight left
    | relateRight _ left =>
        exact ⟨left.nameOccurrences, by simp [Frame.fill, Term.nameOccurrences]⟩
    | function right
    | connectLeft _ right
    | equalLeft right
    | relateLeft _ right =>
        refine ⟨right.nameOccurrences, fun term name => ?_⟩
        rw [Frame.fill, Term.nameOccurrences, List.mem_append]
        exact Or.comm
  induction context with
  | nil =>
      exact ⟨[], by simp [Context.fill]⟩
  | cons frame rest inductionHypothesis =>
      obtain ⟨inner, inRest⟩ := inductionHypothesis
      obtain ⟨outer, inFrame⟩ := ofFrame frame
      refine ⟨outer ++ inner, fun term name => ?_⟩
      rw [fill_cons, inFrame, inRest, List.mem_append, or_assoc]

/-- The names bound around a place occur in the whole. -/
theorem mem_nameOccurrences_of_mem_boundNames
    {context : Context}
    {name : String}
    {term : Term}
    (isBound : name ∈ context.boundNames) :
    name ∈ (Context.fill context term).nameOccurrences := by
  induction context with
  | nil =>
      simp [boundNames] at isBound
  | cons frame rest inductionHypothesis =>
      obtain ⟨outer, inFrame⟩ := exists_outerNames [frame]
      rcases mem_boundNames_cons.mp isBound with binds | inRest
      · cases frame <;> cases binds
        exact List.mem_cons_self
      · exact (inFrame _ name).mpr (.inr (inductionHypothesis inRest))

end Context

end TypedLambda
