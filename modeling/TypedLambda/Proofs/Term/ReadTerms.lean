import TypedLambda.Proofs.Term.Readable
import TypedLambda.Proofs.Term.ReaderRuns

namespace TypedLambda.Term.Reader

/-!
# Read terms are readable

Whatever the reader has put together at some point can be written down under
its options: the operands and operators before the current lexeme, and the
items of the lists that are still open. Every step keeps this up.
-/

open Grammar

variable {options : ReadingOptions}

/-- What an operator holds can be written down. -/
def Pending.Readable (options : ReadingOptions) : Pending → Prop
  | .negation => True
  | .equation left => left.Readable options
  | .relation _ left => left.Readable options
  | .connective _ left => left.Readable options
  | .binder _ bound => ∀ identifier ∈ bound, options.Admits .variable identifier

/-- What an opened list holds can be written down. -/
def Opening.Readable (options : ReadingOptions) : Opening → Prop
  | .group items => ∀ item ∈ items, item.Readable options
  | .call function arguments =>
      function.Readable options ∧ ∀ argument ∈ arguments, argument.Readable options
  | .bracket => True

/-- What is being read can be written down. -/
def Mode.Readable (options : ReadingOptions) : Mode → Prop
  | .operand => True
  | .binding _ bound => ∀ identifier ∈ bound, options.Admits .variable identifier
  | .operator term => term.Readable options

/-- Everything in a state can be written down. -/
structure State.Readable (options : ReadingOptions) (state : State) : Prop where
  mode : state.mode.Readable options
  pending : ∀ operator ∈ state.pending, operator.Readable options
  outer :
    ∀ level ∈ state.outer,
      level.opening.Readable options ∧
        ∀ operator ∈ level.pending, operator.Readable options

section Completion

variable {term : Term} {pending : List Pending}

theorem Pending.Readable.complete
    {operator : Pending}
    (readable : operator.Readable options)
    (readableTerm : term.Readable options) :
    (operator.complete term).Readable options := by
  cases operator with
  | negation =>
      exact readableTerm
  | equation left =>
      exact ⟨readable, readableTerm⟩
  | relation relation left =>
      exact ⟨readable, readableTerm⟩
  | connective connective left =>
      exact ⟨readable, readableTerm⟩
  | binder binder bound =>
      rw [Pending.complete]
      induction bound with
      | nil =>
          exact readableTerm
      | cons identifier others inductionHypothesis =>
          rw [Pending.Readable, List.forall_mem_cons] at readable
          exact ⟨readable.1, inductionHypothesis readable.2⟩

theorem readable_completeAll
    (readable : term.Readable options)
    (readablePending : ∀ operator ∈ pending, operator.Readable options) :
    (completeAll term pending).Readable options := by
  induction pending generalizing term with
  | nil =>
      exact readable
  | cons operator rest inductionHypothesis =>
      rw [List.forall_mem_cons] at readablePending
      exact inductionHypothesis (readablePending.1.complete readable) readablePending.2

theorem readable_completeDown
    (strength : Nat)
    (readable : term.Readable options)
    (readablePending : ∀ operator ∈ pending, operator.Readable options) :
    (completeDown strength term pending).1.Readable options ∧
      ∀ operator ∈ (completeDown strength term pending).2, operator.Readable options := by
  induction pending generalizing term with
  | nil =>
      exact ⟨readable, nofun⟩
  | cons operator rest inductionHypothesis =>
      have both := List.forall_mem_cons.mp readablePending
      rw [completeDown]
      split
      · exact inductionHypothesis (both.1.complete readable) both.2
      · exact ⟨readable, readablePending⟩

theorem readable_completeToRelation
    {isRelation : Bool}
    {left : Term}
    {remaining : List Pending}
    (readable : term.Readable options)
    (readablePending : ∀ operator ∈ pending, operator.Readable options)
    (completed : completeToRelation isRelation term pending = some (left, remaining)) :
    left.Readable options ∧ ∀ operator ∈ remaining, operator.Readable options := by
  induction pending generalizing isRelation term with
  | nil =>
      cases isRelation <;> cases completed
      exact ⟨readable, nofun⟩
  | cons operator rest inductionHypothesis =>
      have both := List.forall_mem_cons.mp readablePending
      have applied := both.1.complete readable
      cases operator with
      | negation | equation | relation =>
          exact inductionHypothesis applied both.2 completed
      | connective | binder =>
          cases isRelation with
          | true =>
              exact inductionHypothesis applied both.2 completed
          | false =>
              cases completed
              exact ⟨readable, readablePending⟩

/-- A list that is not empty denotes a readable term if its items are readable. -/
theorem readable_collect
    {items : List Term}
    (readableItems : ∀ item ∈ items, item.Readable options)
    (readable : term.Readable options) :
    (collect (items ++ [term])).Readable options := by
  cases items with
  | nil =>
      exact readable
  | cons first others =>
      have collected :
          collect (first :: others ++ [term]) = .tuple (first :: others ++ [term]) := by
        cases others <;> rfl
      rw [collected, Term.Readable, allReadable_iff_forall]
      refine ⟨by simp, List.forall_mem_append.mpr ⟨readableItems, ?_⟩⟩
      simpa using readable

end Completion

section Names

variable {name : String}

theorem admits_of_binds
    {bound : Identifier}
    (isName : Token.IsName options.style name)
    (binds : Binds options name bound) :
    options.Admits .variable bound := by
  obtain ⟨rfl, known⟩ := binds
  exact ⟨isName, known⟩

theorem readable_named
    {kind : IdentifierKind}
    {ty : Ty}
    (isName : Token.IsName options.style name)
    (known : options.conventions.lookup? name = some (kind, ty)) :
    (named kind ⟨name, ty⟩).Readable options := by
  cases kind <;> exact ⟨isName, known⟩

theorem admits_of_forall₂_binds
    {names : List String}
    {bound : List Identifier}
    (areNames : ∀ name ∈ names, Token.IsName options.style name)
    (binds : List.Forall₂ (Binds options) names bound) :
    ∀ identifier ∈ bound, options.Admits .variable identifier := by
  induction binds with
  | nil =>
      simp
  | cons bindsFirst _ inductionHypothesis =>
      rw [List.forall_mem_cons] at areNames ⊢
      exact ⟨admits_of_binds areNames.1 bindsFirst, inductionHypothesis areNames.2⟩

/-- What is fused with the letter for a binder is a name by itself. -/
theorem isName_of_letterBinder
    {names fused : List String}
    {binder : Binder}
    (isName : Token.IsName options.style name)
    (stands : LetterBinder options names name binder fused) :
    ∀ other ∈ fused, Token.IsName options.style other := by
  cases stands with
  | alone =>
      simp
  | @fused letter first more _ _ spelledFused _ begins =>
      obtain ⟨_, further, spelled, _, _, whole⟩ := Token.isName_iff.mp isName
      rw [spelledFused] at spelled
      cases spelled
      have noPrime := Token.isPrime_eq_false_of_isLetter begins
      rw [Token.nameLength_cons] at whole
      by_cases continuing : options.style.continues first = true
      · rw [if_pos continuing, List.length_cons, Nat.add_right_cancel_iff] at whole
        rw [List.forall_mem_singleton]
        exact Token.isName_iff.mpr
          ⟨first, more, String.toList_ofList, begins,
            Token.ofCharacter?_eq_none_of_continues begins continuing, whole⟩
      · rw [if_neg continuing, List.takeWhile_cons, noPrime] at whole
        simp at whole

end Names

section Lists

variable {opening : List Term → Opening} {closed : List Term → Term}
variable {items : List Term} {item : Term}

theorem Opening.Readable.comma
    (readable : (opening items).Readable options)
    (lists : Lists opening closed)
    (readableItem : item.Readable options) :
    (opening (items ++ [item])).Readable options := by
  cases lists with
  | group =>
      exact List.forall_mem_append.mpr ⟨readable, by simpa using readableItem⟩
  | call =>
      exact ⟨readable.1, List.forall_mem_append.mpr ⟨readable.2, by simpa using readableItem⟩⟩

theorem Opening.Readable.close
    (readable : (opening items).Readable options)
    (lists : Lists opening closed)
    (readableItem : item.Readable options) :
    (closed (items ++ [item])).Readable options := by
  cases lists with
  | group =>
      exact readable_collect readable readableItem
  | call =>
      exact ⟨readable.1, readable_collect readable.2 readableItem⟩

end Lists

section Steps

variable {before behind : Configuration}

/-- A step keeps everything in the state readable. -/
theorem State.Readable.step
    (readable : before.state.Readable options)
    (isName : ∀ name, .identifier name ∈ before.ahead → Token.IsName options.style name)
    (step : Step options before behind) :
    behind.state.Readable options := by
  obtain ⟨mode, pending, outer⟩ := readable
  cases step with
  | negation =>
      exact ⟨trivial, List.forall_mem_cons.mpr ⟨trivial, pending⟩, outer⟩
  | symbol =>
      exact ⟨nofun, pending, outer⟩
  | letter stands binds =>
      have areNames := isName_of_letterBinder (isName _ List.mem_cons_self) stands
      exact ⟨admits_of_forall₂_binds areNames binds, pending, outer⟩
  | name noBinder known =>
      exact ⟨readable_named (isName _ List.mem_cons_self) known, pending, outer⟩
  | openGroup =>
      exact ⟨trivial, nofun, List.forall_mem_cons.mpr ⟨⟨nofun, pending⟩, outer⟩⟩
  | openBracket =>
      exact ⟨trivial, nofun, List.forall_mem_cons.mpr ⟨⟨trivial, pending⟩, outer⟩⟩
  | bound binds =>
      refine ⟨List.forall_mem_append.mpr ⟨mode, ?_⟩, pending, outer⟩
      rw [List.forall_mem_singleton]
      exact admits_of_binds (isName _ List.mem_cons_self) binds
  | dot nonempty =>
      exact ⟨trivial, List.forall_mem_cons.mpr ⟨mode, pending⟩, outer⟩
  | openCall =>
      exact ⟨trivial, nofun, List.forall_mem_cons.mpr ⟨⟨⟨mode, nofun⟩, pending⟩, outer⟩⟩
  | sign isSign completed =>
      obtain ⟨left, remaining⟩ := readable_completeToRelation mode pending completed
      refine ⟨trivial, List.forall_mem_cons.mpr ⟨?_, remaining⟩, outer⟩
      cases isSign <;> exact left
  | @connective _ _ _ _ _ _ connective completed =>
      have complete := readable_completeDown connective.leftStrength mode pending
      rw [completed] at complete
      exact ⟨trivial, List.forall_mem_cons.mpr complete, outer⟩
  | comma lists =>
      rw [List.forall_mem_cons] at outer
      obtain ⟨⟨opened, outside⟩, further⟩ := outer
      have items := opened.comma lists (readable_completeAll mode pending)
      exact ⟨trivial, nofun, List.forall_mem_cons.mpr ⟨⟨items, outside⟩, further⟩⟩
  | closeParenthesis lists =>
      rw [List.forall_mem_cons] at outer
      obtain ⟨⟨opened, outside⟩, further⟩ := outer
      exact ⟨opened.close lists (readable_completeAll mode pending), outside, further⟩
  | closeBracket =>
      rw [List.forall_mem_cons] at outer
      exact ⟨readable_completeAll mode pending, outer.1.2, outer.2⟩

/-- Everything stays readable to the end of a run. -/
theorem State.Readable.follows
    (readable : before.state.Readable options)
    (isName : ∀ name, .identifier name ∈ before.ahead → Token.IsName options.style name)
    (follows : Follows options before behind) :
    behind.state.Readable options := by
  induction follows using Relation.ReflTransGen.head_induction_on with
  | refl =>
      exact readable
  | head step _ inductionHypothesis =>
      obtain ⟨token, isAhead⟩ := step.exists_ahead_eq
      refine inductionHypothesis (readable.step isName step) fun name member => ?_
      exact isName name (isAhead ▸ List.mem_cons_of_mem token member)

end Steps

theorem readable_start : State.Readable options start :=
  ⟨trivial, nofun, nofun⟩

end TypedLambda.Term.Reader

namespace TypedLambda.Term

/-- Every term that is read can be written down under the options it was read with. -/
theorem readable_of_read
    {options : ReadingOptions}
    {text : String}
    {term : Term}
    (result : read options text = .ok term) :
    term.Readable options := by
  simp only [read, Outcome.bind_eq_ok_iff] at result
  obtain ⟨scan, scanned, result⟩ := result
  split at result
  · cases result
  · obtain ⟨last, pending, follows, rfl⟩ := Reader.run_eq_ok_iff.mp result
    have readable :=
      Reader.readable_start.follows (fun name ahead => by
        obtain ⟨lexeme, member, isIdentifier⟩ := List.mem_map.mp ahead
        exact Token.isName_of_mem_lexemes scanned member isIdentifier) follows
    exact Reader.readable_completeAll readable.mode readable.pending

end TypedLambda.Term
