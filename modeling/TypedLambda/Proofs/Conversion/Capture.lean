import TypedLambda.Proofs.Conversion.Place

namespace TypedLambda

/-!
# Capture

Putting an argument in the place of a name captures a free variable of the
argument if a free occurrence of the name stands below a binder of that
variable. Whether it does is told apart by the node at the root.
-/

namespace Term

/--
Some occurrence of the name that is free in the term stands below a binder of
a variable that is free in the argument.
-/
def Captures (name : String) (argument term : Term) : Prop :=
  ∃ (context : Context) (ty : Ty),
    term = context.fill (.var ⟨name, ty⟩) ∧
      name ∉ context.boundNames ∧
      ∃ other ∈ context.boundNames, argument.hasFree other = true

/-- What is free in the whole and not left or right of the hole is free in a part. -/
theorem exists_frame_of_hasFree
    {name : String}
    {term : Term}
    (free : term.hasFree name = true) :
    (∃ ty, term = .var ⟨name, ty⟩) ∨
      ∃ (frame : Frame) (part : Term),
        frame.fill part = term ∧
          frame.boundName? ≠ some name ∧ part.hasFree name = true := by
  have notBound : (none : Option String) ≠ some name :=
    (Option.some_ne_none name).symm
  cases term with
  | var identifier =>
      simp only [hasFree, decide_eq_true_eq] at free
      exact .inl ⟨identifier.ty, by rw [← free]⟩
  | const identifier =>
      simp [hasFree] at free
  | bind binder bound body =>
      simp only [hasFree, Bool.and_eq_true, bne_iff_ne, ne_eq] at free
      exact .inr ⟨.bind binder bound, body, rfl,
        by simpa [Frame.boundName?] using free.1, free.2⟩
  | app function argument =>
      simp only [hasFree, Bool.or_eq_true] at free
      rcases free with inFunction | inArgument
      · exact .inr ⟨.function argument, function, rfl, notBound, inFunction⟩
      · exact .inr ⟨.argument function, argument, rfl, notBound, inArgument⟩
  | tuple items =>
      simp only [hasFree, anyHasFree_eq_any, List.any_eq_true] at free
      obtain ⟨item, member, inItem⟩ := free
      obtain ⟨before, after, shape⟩ := List.append_of_mem member
      exact .inr ⟨.item before after, item,
        congrArg Term.tuple shape.symm, notBound, inItem⟩
  | neg operand =>
      exact .inr ⟨.neg, operand, rfl, notBound, free⟩
  | connect connective left right =>
      simp only [hasFree, Bool.or_eq_true] at free
      rcases free with inLeft | inRight
      · exact .inr ⟨.connectLeft connective right, left, rfl, notBound, inLeft⟩
      · exact .inr ⟨.connectRight connective left, right, rfl, notBound, inRight⟩
  | equal left right =>
      simp only [hasFree, Bool.or_eq_true] at free
      rcases free with inLeft | inRight
      · exact .inr ⟨.equalLeft right, left, rfl, notBound, inLeft⟩
      · exact .inr ⟨.equalRight left, right, rfl, notBound, inRight⟩
  | relate relation left right =>
      simp only [hasFree, Bool.or_eq_true] at free
      rcases free with inLeft | inRight
      · exact .inr ⟨.relateLeft relation right, left, rfl, notBound, inLeft⟩
      · exact .inr ⟨.relateRight relation left, right, rfl, notBound, inRight⟩

/-- A name is free exactly if an occurrence of it is bound by nothing around it. -/
theorem hasFree_iff_exists_occurrence
    {name : String}
    {term : Term} :
    term.hasFree name = true ↔
      ∃ (context : Context) (ty : Ty),
        term = context.fill (.var ⟨name, ty⟩) ∧ name ∉ context.boundNames := by
  constructor
  · intro free
    induction sizeOfTerm : term.size using Nat.strongRecOn
      generalizing term with
    | ind weight inductionHypothesis =>
        rcases exists_frame_of_hasFree free with
          ⟨ty, rfl⟩ | ⟨frame, part, rfl, unbound, inPart⟩
        · exact ⟨[], ty, rfl, nofun⟩
        · obtain ⟨context, ty, shape, outer⟩ :=
            inductionHypothesis part.size
              (sizeOfTerm ▸ size_lt_size_fill frame part) inPart rfl
          refine ⟨frame :: context, ty, by rw [shape]; rfl, ?_⟩
          rw [Context.mem_boundNames_cons, not_or]
          exact ⟨unbound, outer⟩
  · rintro ⟨context, ty, rfl, unbound⟩
    induction context with
    | nil =>
        simp [Context.fill, hasFree]
    | cons frame rest inductionHypothesis =>
        rw [Context.mem_boundNames_cons, not_or] at unbound
        exact hasFree_fill unbound.1 (inductionHypothesis unbound.2)

/-- Capture happens at the outermost frame or further down. -/
theorem captures_iff_frame
    {name : String}
    {argument term : Term} :
    Captures name argument term ↔
      ∃ (frame : Frame) (part : Term),
        frame.fill part = term ∧ frame.boundName? ≠ some name ∧
          (Captures name argument part ∨
            part.hasFree name = true ∧
              ∃ other, frame.boundName? = some other ∧
                argument.hasFree other = true) := by
  constructor
  · rintro ⟨context, ty, rfl, unbound, other, member, free⟩
    cases context with
    | nil =>
        simp [Context.boundNames] at member
    | cons frame rest =>
        rw [Context.mem_boundNames_cons, not_or] at unbound
        refine ⟨frame, Context.fill rest (.var ⟨name, ty⟩), rfl, unbound.1, ?_⟩
        rcases Context.mem_boundNames_cons.mp member with binds | inRest
        · have inPart :=
            hasFree_iff_exists_occurrence.mpr ⟨rest, ty, rfl, unbound.2⟩
          exact .inr ⟨inPart, other, binds, free⟩
        · exact .inl ⟨rest, ty, rfl, unbound.2, other, inRest, free⟩
  · rintro ⟨frame, part, rfl, unbound, captured⟩
    have extend
        {context : Context}
        (outer : name ∉ context.boundNames) :
        name ∉ Context.boundNames (frame :: context) := by
      rw [Context.mem_boundNames_cons, not_or]
      exact ⟨unbound, outer⟩
    rcases captured with
      ⟨context, ty, rfl, outer, other, member, free⟩ | ⟨inPart, other, binds, free⟩
    · exact ⟨frame :: context, ty, rfl, extend outer, other,
        Context.mem_boundNames_cons.mpr (.inr member), free⟩
    · obtain ⟨context, ty, rfl, outer⟩ :=
        hasFree_iff_exists_occurrence.mp inPart
      exact ⟨frame :: context, ty, rfl, extend outer, other,
        Context.mem_boundNames_cons.mpr (.inl binds), free⟩

/-- Below a binder of the name itself nothing is put in, so nothing is captured. -/
theorem captures_bind_iff
    {name : String}
    {argument body : Term}
    {binder : Binder}
    {bound : Identifier} :
    Captures name argument (.bind binder bound body) ↔
      bound.name ≠ name ∧
        (Captures name argument body ∨
          body.hasFree name = true ∧ argument.hasFree bound.name = true) := by
  rw [captures_iff_frame]
  constructor
  · rintro ⟨frame, part, shape, unbound, captured⟩
    cases frame <;> simp only [Frame.fill, reduceCtorEq, Term.bind.injEq] at shape
    obtain ⟨rfl, rfl, rfl⟩ := shape
    simpa [Frame.boundName?] using And.intro unbound captured
  · rintro ⟨different, captured⟩
    refine ⟨.bind binder bound, body, rfl, by simpa [Frame.boundName?], ?_⟩
    simpa [Frame.boundName?] using captured

/-- Away from binders capture happens in a term directly below the root. -/
theorem captures_iff_children
    {name : String}
    {argument term : Term}
    (noBinder :
      ∀ (binder : Binder) (bound : Identifier) (body : Term),
        term ≠ .bind binder bound body) :
    Captures name argument term ↔
      ∃ child ∈ term.children, Captures name argument child := by
  have bindsNothing
      {frame : Frame}
      {part : Term}
      (shape : frame.fill part = term) :
      frame.boundName? = none := by
    cases frame with
    | bind binder bound =>
        exact (noBinder binder bound part shape.symm).elim
    | _ =>
        rfl
  rw [captures_iff_frame]
  constructor
  · rintro ⟨frame, part, shape, unbound, captured⟩
    refine ⟨part, mem_children_iff.mpr ⟨frame, shape⟩, ?_⟩
    simpa [bindsNothing shape] using captured
  · rintro ⟨child, member, captured⟩
    obtain ⟨frame, shape⟩ := mem_children_iff.mp member
    exact ⟨frame, child, shape, by simp [bindsNothing shape], .inl captured⟩

section captures

variable {name : String} {argument first second : Term}

theorem captures_app_iff :
    Captures name argument (.app first second) ↔
      Captures name argument first ∨ Captures name argument second := by
  rw [captures_iff_children (by nofun)]
  simp [children]

theorem captures_tuple_iff {items : List Term} :
    Captures name argument (.tuple items) ↔
      ∃ item ∈ items, Captures name argument item :=
  captures_iff_children (by nofun)

theorem captures_neg_iff :
    Captures name argument (.neg first) ↔ Captures name argument first := by
  rw [captures_iff_children (by nofun)]
  simp [children]

theorem captures_connect_iff {connective : Connective} :
    Captures name argument (.connect connective first second) ↔
      Captures name argument first ∨ Captures name argument second := by
  rw [captures_iff_children (by nofun)]
  simp [children]

theorem captures_equal_iff :
    Captures name argument (.equal first second) ↔
      Captures name argument first ∨ Captures name argument second := by
  rw [captures_iff_children (by nofun)]
  simp [children]

theorem captures_relate_iff {relation : SetRelation} :
    Captures name argument (.relate relation first second) ↔
      Captures name argument first ∨ Captures name argument second := by
  rw [captures_iff_children (by nofun)]
  simp [children]

end captures

end Term

end TypedLambda
