import TypedLambda.Proofs.Conversion.BoundNames
import TypedLambda.Proofs.Term.RoundTrip
import TypedLambda.Proofs.Typing.TypedStep

namespace TypedLambda

/-!
# Steps of readable terms

A step brings no names into a term but those it has, some of them with primes
added. A name with a prime added is still a name of the style, and it starts
with the same letter, so the conventions give it the same kind and type. A step
of a readable term therefore leads to a readable term, as long as it changes no
types: as long as the conventions mention no type variables. Whatever a term that
has been read is converted into can then be read as well.
-/

open Relation (ReflTransGen)

namespace ReadingOptions

variable {options : ReadingOptions} {kind : IdentifierKind} {identifier : Identifier}

/-- No type variable occurs in any convention. -/
def IsGround (options : ReadingOptions) : Prop :=
  ∀ convention ∈ options.conventions.entries, convention.ty.Ground

instance (options : ReadingOptions) : Decidable options.IsGround :=
  inferInstanceAs (Decidable (∀ convention ∈ options.conventions.entries, _))

/-- The conventions give types without variables. -/
theorem Admits.ground
    (admits : options.Admits kind identifier)
    (isGround : options.IsGround) :
    identifier.ty.Ground := by
  obtain ⟨_, known⟩ := admits
  unfold Conventions.lookup? at known
  split at known
  · cases known
  · obtain ⟨convention, found, same⟩ := Option.map_eq_some_iff.mp known
    rw [Prod.mk.injEq] at same
    rw [← same.2]
    exact isGround convention (List.mem_reverse.mp (List.mem_of_find?_eq_some found))

/-- A name with primes added is of the same kind and type. -/
theorem Admits.primed
    (admits : options.Admits kind identifier)
    {name : String}
    {count : Nat}
    (spelled : name.toList = identifier.name.toList ++ List.replicate count '\x27') :
    options.Admits kind ⟨name, identifier.ty⟩ := by
  obtain ⟨isName, known⟩ := admits
  obtain ⟨first, rest, spelledBefore, letter, notSingle, whole⟩ := Token.isName_iff.mp isName
  rw [spelledBefore, List.cons_append] at spelled
  constructor
  · refine Token.isName_iff.mpr ⟨first, _, spelled, letter, notSingle, ?_⟩
    rw [Token.nameLength_append_primes whole, List.length_append, List.length_replicate]
  · simp only [Conventions.lookup?, spelledBefore, spelled] at known ⊢
    exact known

end ReadingOptions

namespace Term

variable {options : ReadingOptions} {term : Term}

/-- No type variable occurs in a readable term if none occurs in the conventions. -/
theorem Readable.monomorphic
    (readable : term.Readable options)
    (isGround : options.IsGround) :
    term.Monomorphic := by
  induction term with
  | var identifier =>
      exact monomorphic_var.mpr (readable.ground isGround)
  | const identifier =>
      exact monomorphic_const.mpr (readable.ground isGround)
  | bind binder bound body inductionHypothesis =>
      exact monomorphic_bind.mpr
        ⟨readable.1.ground isGround, inductionHypothesis readable.2⟩
  | tuple items inductionHypothesis =>
      simp only [Readable, allReadable_iff_forall] at readable
      rw [monomorphic_tuple]
      exact fun item member => inductionHypothesis item member (readable.2 item member)
  | neg operand inductionHypothesis =>
      exact inductionHypothesis readable
  | app _ _ firstHypothesis secondHypothesis
  | connect _ _ _ firstHypothesis secondHypothesis
  | equal _ _ firstHypothesis secondHypothesis
  | relate _ _ _ firstHypothesis secondHypothesis =>
      simp only [monomorphic_app, monomorphic_connect, monomorphic_equal, monomorphic_relate]
      exact ⟨firstHypothesis readable.1, secondHypothesis readable.2⟩

/-- A readable term may take the place of a variable. -/
theorem Readable.substitute
    (readable : term.Readable options)
    {replacement : Term}
    (readableReplacement : replacement.Readable options)
    (name : String) :
    (Term.substitute name replacement term).Readable options := by
  induction term with
  | var identifier =>
      rw [Term.substitute]
      split
      · exact readableReplacement
      · exact readable
  | const identifier =>
      exact readable
  | bind binder bound body inductionHypothesis =>
      rw [Term.substitute]
      split
      · exact readable
      · exact ⟨readable.1, inductionHypothesis readable.2⟩
  | tuple items inductionHypothesis =>
      simp only [Term.substitute, substituteAll_eq_map, Readable, allReadable_iff_forall,
        List.length_map, List.forall_mem_map] at readable ⊢
      exact ⟨readable.1, fun item member =>
        inductionHypothesis item member (readable.2 item member)⟩
  | neg operand inductionHypothesis =>
      exact inductionHypothesis readable
  | app _ _ firstHypothesis secondHypothesis
  | connect _ _ _ firstHypothesis secondHypothesis
  | equal _ _ firstHypothesis secondHypothesis
  | relate _ _ _ firstHypothesis secondHypothesis =>
      exact ⟨firstHypothesis readable.1, secondHypothesis readable.2⟩

/-- A term directly below the root of a readable one is readable and may be exchanged. -/
theorem Readable.hole
    {frame : Frame}
    (readable : (frame.fill term).Readable options) :
    term.Readable options ∧
      ∀ other : Term, other.Readable options → (frame.fill other).Readable options := by
  cases frame with
  | bind binder bound =>
      exact ⟨readable.2, fun _ other => ⟨readable.1, other⟩⟩
  | item before after =>
      simp only [Frame.fill, Readable, allReadable_iff_forall, List.length_append,
        List.length_cons, List.forall_mem_append, List.forall_mem_cons] at readable ⊢
      exact ⟨readable.2.2.1, fun _ other =>
        ⟨readable.1, readable.2.1, other, readable.2.2.2⟩⟩
  | neg =>
      exact ⟨readable, fun _ other => other⟩
  | function | connectLeft | equalLeft | relateLeft =>
      exact ⟨readable.1, fun _ other => ⟨other, readable.2⟩⟩
  | argument | connectRight | equalRight | relateRight =>
      exact ⟨readable.2, fun _ other => ⟨readable.1, other⟩⟩

/-- A part of a readable term is readable and may be exchanged for another one that is. -/
theorem Readable.part
    {context : Context}
    (readable : (context.fill term).Readable options) :
    term.Readable options ∧
      ∀ other : Term, other.Readable options → (context.fill other).Readable options := by
  induction context with
  | nil =>
      exact ⟨readable, fun _ other => other⟩
  | cons frame rest inductionHypothesis =>
      obtain ⟨inFrame, exchangedInFrame⟩ := readable.hole
      obtain ⟨inRest, exchangedInRest⟩ := inductionHypothesis inFrame
      exact ⟨inRest, fun _ other => exchangedInFrame _ (exchangedInRest _ other)⟩

/-- Renaming a capturing binder only adds primes to its name. -/
theorem RenameRun.readable
    {used : List String}
    {name : String}
    {argument : Term}
    {first last : Renamed}
    (run : RenameRun used name argument first last)
    (readable : first.1.Readable options) :
    last.1.Readable options := by
  induction run with
  | refl =>
      exact readable
  | tail _ step inductionHypothesis =>
      obtain ⟨context, binder, bound, body, done, _, _, _⟩ := step
      obtain ⟨⟨admits, readableBody⟩, exchanged⟩ := inductionHypothesis.part
      obtain ⟨_, spelled⟩ :=
        freshName_eq_append_primes (used ++ done.map Renaming.new) bound.name
      have admitsNext : options.Admits .variable ⟨nextName used done bound.name, bound.ty⟩ :=
        admits.primed spelled
      have readableNext :
          (Term.var ⟨nextName used done bound.name, bound.ty⟩).Readable options :=
        admitsNext
      exact exchanged _ ⟨admitsNext, readableBody.substitute readableNext _⟩

/-- A step leads from a readable term to a readable term. -/
theorem Readable.step
    (readable : term.Readable options)
    (isGround : options.IsGround)
    {step : Step}
    (stepped : term.step? = .ok (some step)) :
    step.result.Readable options := by
  obtain ⟨place, contraction, found, contracted, rfl⟩ := step?_cases stepped
  obtain ⟨rfl, _⟩ := isLeftmost_of_leftmostRedex? found
  obtain ⟨⟨⟨admits, readableBody⟩, readableArgument⟩, exchanged⟩ := readable.part
  have monomorphic : place.redex.toTerm.Monomorphic :=
    Readable.monomorphic ⟨⟨admits, readableBody⟩, readableArgument⟩ isGround
  refine exchanged _ ?_
  rcases Redex.contract_cases_of_monomorphic monomorphic contracted with
    ⟨_, _, result⟩ | ⟨_, _, result⟩
  · have run := renameRun_avoidCapture place.redex.usedNames place.redex.bound.name
      place.redex.argument place.redex.body []
    rw [result]
    exact ⟨⟨admits, run.readable readableBody⟩, readableArgument⟩
  · rw [result]
    exact readableBody.substitute readableArgument _

/-- Any number of steps leads from a readable term to a readable term. -/
theorem Readable.converts_star
    (readable : term.Readable options)
    (isGround : options.IsGround)
    {reached : Term}
    (run : ReflTransGen Converts term reached) :
    reached.Readable options := by
  induction run with
  | refl =>
      exact readable
  | tail _ converts inductionHypothesis =>
      obtain ⟨_, stepped⟩ := converts
      exact inductionHypothesis.step isGround stepped

/--
Every result of a conversion can be typed in. Under conventions without type
variables, whatever a term that has been read is converted into, in any number
of steps, is read back from its logical text, and from its plain text if letters
may stand for binders.
-/
theorem read_text_converted
    (isGround : options.IsGround)
    {text : String}
    (result : read options text = .ok term)
    {reached : Term}
    (run : ReflTransGen Converts term reached) :
    read options (reached.text .logical) = .ok reached ∧
      (options.letterBinders = true → read options (reached.text .plain) = .ok reached) := by
  have readable := (readable_of_read result).converts_star isGround run
  exact ⟨readable.read_text (by simp), fun letters => readable.read_text fun _ => letters⟩

/-- What (λx.∀y.R(x,y))(y) is converted into is read back with the primed name. -/
theorem read_text_converted_relatedToAll :
    read .standard "(Lx.Ay.R(x,y))(y)" = .ok (relatedToAll "y").toTerm ∧
      ReflTransGen Converts (relatedToAll "y").toTerm (allRelated "y'") ∧
      (allRelated "y'").text .plain = "Ay'.R(y,y')" ∧
      read .standard "Ay'.R(y,y')" = .ok (allRelated "y'") := by
  have isGround : ReadingOptions.standard.IsGround := by
    decide
  have result : read .standard "(Lx.Ay.R(x,y))(y)" = .ok (relatedToAll "y").toTerm := by
    rfl
  have renamed : Converts (relatedToAll "y").toTerm (relatedToAll "y'").toTerm :=
    ⟨.alpha, step?_relatedToAll_captured⟩
  have contracted : Converts (relatedToAll "y'").toTerm (allRelated "y'") :=
    ⟨.beta, step?_relatedToAll (by decide) (by decide)⟩
  have run := (ReflTransGen.single renamed).tail contracted
  obtain ⟨_, plain⟩ := read_text_converted isGround result run
  exact ⟨result, run, rfl, plain rfl⟩

end Term

end TypedLambda
