import TypedLambda.Proofs.Typing.TypedStep

namespace TypedLambda

/-!
# Identifiers along a run

A step of a term without type variables makes up no identifiers: whatever is
mentioned in its result is mentioned in the term, with the same type, and at
most some primes have been added to its name.
-/

/-- The second identifier is the first one, possibly with primes added to its name. -/
def Identifier.Primes (original primed : Identifier) : Prop :=
  ∃ count,
    primed.name.toList = original.name.toList ++ List.replicate count '\x27' ∧
      primed.ty = original.ty

theorem Identifier.Primes.refl (identifier : Identifier) : identifier.Primes identifier :=
  ⟨0, by simp, rfl⟩

/-- Primes may be added again. -/
theorem Identifier.Primes.trans
    {first second third : Identifier}
    (before : first.Primes second)
    (after : second.Primes third) :
    first.Primes third := by
  obtain ⟨count, spelled, sameType⟩ := before
  obtain ⟨more, spelledNext, sameTypeNext⟩ := after
  refine ⟨count + more, ?_, sameTypeNext.trans sameType⟩
  rw [spelledNext, spelled, List.append_assoc, List.replicate_append_replicate]

namespace Term

/-- Every identifier of the one term is one of the other term, possibly with primes added. -/
def PrimedFrom (part whole : Term) : Prop :=
  ∀ identifier ∈ part.identifiers,
    ∃ original ∈ whole.identifiers, original.Primes identifier

/-- A term whose identifiers all occur in another one. -/
theorem PrimedFrom.of_subset
    {part whole : Term}
    (included : part.identifiers ⊆ whole.identifiers) :
    PrimedFrom part whole :=
  fun identifier mentioned => ⟨identifier, included mentioned, .refl identifier⟩

theorem PrimedFrom.trans
    {first second third : Term}
    (before : PrimedFrom first second)
    (after : PrimedFrom second third) :
    PrimedFrom first third := by
  intro identifier mentioned
  obtain ⟨middle, inSecond, primes⟩ := before identifier mentioned
  obtain ⟨original, inThird, primesBefore⟩ := after middle inSecond
  exact ⟨original, inThird, primesBefore.trans primes⟩

/-- Exchanging a part leaves the identifiers around it as they are. -/
theorem PrimedFrom.fill
    {before after : Term}
    (primed : PrimedFrom after before)
    (context : Context) :
    PrimedFrom (context.fill after) (context.fill before) := by
  induction context with
  | nil =>
      exact primed
  | cons frame rest inductionHypothesis =>
      intro identifier mentioned
      have inPart := inductionHypothesis identifier
      have same : identifier.Primes identifier := .refl identifier
      cases frame <;>
        simp only [Context.fill_cons, Frame.fill, identifiers, identifiersInAll_eq_flatMap,
          List.flatMap_append, List.flatMap_cons, List.mem_append, List.mem_cons]
          at mentioned inPart ⊢ <;>
        grind

/-- What is mentioned after a substitution was mentioned before or has been put in. -/
theorem mem_identifiers_substitute
    {name : String}
    {replacement term : Term}
    {identifier : Identifier}
    (mentioned : identifier ∈ (substitute name replacement term).identifiers) :
    identifier ∈ replacement.identifiers ∨ identifier ∈ term.identifiers := by
  induction term with
  | var other =>
      rw [substitute] at mentioned
      split at mentioned
      · exact .inl mentioned
      · exact .inr mentioned
  | const other =>
      exact .inr mentioned
  | bind binder bound body inductionHypothesis =>
      rw [substitute] at mentioned
      split at mentioned
      · exact .inr mentioned
      · rcases List.mem_cons.mp mentioned with isBound | inBody
        · exact .inr (List.mem_cons.mpr (.inl isBound))
        · exact (inductionHypothesis inBody).imp_right (List.mem_cons_of_mem _)
  | tuple items inductionHypothesis =>
      simp only [substitute, substituteAll_eq_map, identifiers, identifiersInAll_eq_flatMap,
        List.mem_flatMap, List.mem_map] at mentioned ⊢
      obtain ⟨_, ⟨item, member, rfl⟩, inItem⟩ := mentioned
      exact (inductionHypothesis item member inItem).imp_right fun inItem =>
        ⟨item, member, inItem⟩
  | neg operand inductionHypothesis =>
      exact inductionHypothesis mentioned
  | app _ _ firstHypothesis secondHypothesis
  | connect _ _ _ firstHypothesis secondHypothesis
  | equal _ _ firstHypothesis secondHypothesis
  | relate _ _ _ firstHypothesis secondHypothesis =>
      simp only [substitute, identifiers, List.mem_append] at mentioned ⊢
      rcases mentioned with inFirst | inSecond
      · exact (firstHypothesis inFirst).imp_right .inl
      · exact (secondHypothesis inSecond).imp_right .inr

/-- Renaming capturing binders adds primes to their names and to what they bind. -/
theorem RenameRun.primedFrom
    {used : List String}
    {name : String}
    {argument : Term}
    {first last : Renamed}
    (run : RenameRun used name argument first last) :
    PrimedFrom last.1 first.1 := by
  induction run with
  | refl =>
      exact .of_subset fun _ mentioned => mentioned
  | tail _ step inductionHypothesis =>
      obtain ⟨context, binder, bound, body, done, _, _, _⟩ := step
      obtain ⟨count, spelled⟩ :=
        freshName_eq_append_primes (used ++ done.map Renaming.new) bound.name
      have primes : bound.Primes ⟨nextName used done bound.name, bound.ty⟩ :=
        ⟨count, spelled, rfl⟩
      refine PrimedFrom.trans (PrimedFrom.fill ?_ context) inductionHypothesis
      intro identifier mentioned
      rcases List.mem_cons.mp mentioned with rfl | inBody
      · exact ⟨bound, List.mem_cons_self, primes⟩
      · rcases mem_identifiers_substitute inBody with isNew | inBody
        · rw [List.mem_singleton.mp isNew]
          exact ⟨bound, List.mem_cons_self, primes⟩
        · exact ⟨identifier, List.mem_cons_of_mem _ inBody, .refl identifier⟩

/-- A step of a term without type variables adds primes to names and nothing else. -/
theorem Monomorphic.primedFrom_step
    {term : Term}
    (monomorphic : term.Monomorphic)
    {step : Step}
    (stepped : term.step? = .ok (some step)) :
    PrimedFrom step.result term := by
  obtain ⟨place, contraction, found, contracted, rfl⟩ := step?_cases stepped
  obtain ⟨rfl, _⟩ := isLeftmost_of_leftmostRedex? found
  refine PrimedFrom.fill ?_ place.context
  rcases Redex.contract_cases_of_monomorphic monomorphic.part.1 contracted with
    ⟨_, _, result⟩ | ⟨_, _, result⟩
  · have run := renameRun_avoidCapture place.redex.usedNames place.redex.bound.name
      place.redex.argument place.redex.body []
    rw [result]
    exact (run.primedFrom.fill [.bind .lambda place.redex.bound]).fill
      [.function place.redex.argument]
  · rw [result]
    refine .of_subset fun identifier mentioned => ?_
    rcases mem_identifiers_substitute mentioned with inArgument | inBody
    · exact List.mem_append_right _ inArgument
    · exact List.mem_append_left _ (List.mem_cons_of_mem _ inBody)

end Term

end TypedLambda
