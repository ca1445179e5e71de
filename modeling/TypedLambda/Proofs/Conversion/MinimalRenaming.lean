import Mathlib.Logic.Function.Basic
import TypedLambda.Proofs.Conversion.AlphaStep
import TypedLambda.Proofs.Conversion.Runs
import TypedLambda.Proofs.Typing.TypedStep

namespace TypedLambda

/-!
# Renaming no more than it takes

What a renaming step may change is said here from the outside inwards, by a
relation between the body of the redex before and after. Exactly the binders
that would capture a free variable of the argument get new names, which are
their old ones with primes added, and what they bind goes with them. The walk
through the body works from the inside outwards instead: it renames what a
binder binds once everything below it is done. Both give the same body, because
no new name has been in use before.

A renaming step is never followed by another one, and never the last.
-/

namespace Term

/--
The variables that stand for the names of the binders around a place. None
stands for a name whose innermost binder has kept it.
-/
abbrev NewVariables := String → Option Identifier

/--
A term and what it becomes when just those of its binders are renamed that bind
a variable which is free in the argument and have an occurrence of the name
below them that nothing around it binds. The binders around the term are given
by their names, and by the new variables that stand for what they bind. The
renamings are listed with the last one first.
-/
inductive RenamesCapturing
    (name : String)
    (argument : Term) :
    List String → NewVariables → Term → Term → List Renaming → Prop where
  /-- An occurrence becomes the variable that stands for its name, if there is one. -/
  | var
      {around : List String}
      {given : NewVariables}
      (identifier : Identifier) :
      RenamesCapturing name argument around given
        (.var identifier) (.var ((given identifier.name).getD identifier)) []
  | const
      {around : List String}
      {given : NewVariables}
      (identifier : Identifier) :
      RenamesCapturing name argument around given (.const identifier) (.const identifier) []
  /-- A binder that would capture gets its old name with primes added. -/
  | renamed
      {around : List String}
      {given : NewVariables}
      {binder : Binder}
      {bound : Identifier}
      {body result : Term}
      {renamings : List Renaming}
      {new : String}
      {primes : Nat}
      (captured : argument.hasFree bound.name = true)
      (below : body.hasFree name = true)
      (notAround : name ∉ bound.name :: around)
      (spelled : new.toList = bound.name.toList ++ List.replicate (primes + 1) '\x27')
      (inBody :
        RenamesCapturing name argument (bound.name :: around)
          (Function.update given bound.name (some ⟨new, bound.ty⟩)) body result renamings) :
      RenamesCapturing name argument around given
        (.bind binder bound body) (.bind binder ⟨new, bound.ty⟩ result)
        (⟨binder, bound.name, new⟩ :: renamings)
  /-- Any other binder is kept. -/
  | kept
      {around : List String}
      {given : NewVariables}
      {binder : Binder}
      {bound : Identifier}
      {body result : Term}
      {renamings : List Renaming}
      (harmless :
        ¬(argument.hasFree bound.name = true ∧ body.hasFree name = true ∧
          name ∉ bound.name :: around))
      (inBody :
        RenamesCapturing name argument (bound.name :: around)
          (Function.update given bound.name none) body result renamings) :
      RenamesCapturing name argument around given
        (.bind binder bound body) (.bind binder bound result) renamings
  | app
      {around : List String}
      {given : NewVariables}
      {left right leftResult rightResult : Term}
      {leftRenamings rightRenamings : List Renaming}
      (inLeft : RenamesCapturing name argument around given left leftResult leftRenamings)
      (inRight : RenamesCapturing name argument around given right rightResult rightRenamings) :
      RenamesCapturing name argument around given
        (.app left right) (.app leftResult rightResult) (rightRenamings ++ leftRenamings)
  | tupleNil
      {around : List String}
      {given : NewVariables} :
      RenamesCapturing name argument around given (.tuple []) (.tuple []) []
  /-- A tuple is renamed item by item. -/
  | tupleCons
      {around : List String}
      {given : NewVariables}
      {item itemResult : Term}
      {rest restResult : List Term}
      {itemRenamings restRenamings : List Renaming}
      (inItem : RenamesCapturing name argument around given item itemResult itemRenamings)
      (inRest :
        RenamesCapturing name argument around given
          (.tuple rest) (.tuple restResult) restRenamings) :
      RenamesCapturing name argument around given
        (.tuple (item :: rest)) (.tuple (itemResult :: restResult))
        (restRenamings ++ itemRenamings)
  | neg
      {around : List String}
      {given : NewVariables}
      {operand result : Term}
      {renamings : List Renaming}
      (inOperand : RenamesCapturing name argument around given operand result renamings) :
      RenamesCapturing name argument around given (.neg operand) (.neg result) renamings
  | connect
      {around : List String}
      {given : NewVariables}
      {connective : Connective}
      {left right leftResult rightResult : Term}
      {leftRenamings rightRenamings : List Renaming}
      (inLeft : RenamesCapturing name argument around given left leftResult leftRenamings)
      (inRight : RenamesCapturing name argument around given right rightResult rightRenamings) :
      RenamesCapturing name argument around given
        (.connect connective left right) (.connect connective leftResult rightResult)
        (rightRenamings ++ leftRenamings)
  | equal
      {around : List String}
      {given : NewVariables}
      {left right leftResult rightResult : Term}
      {leftRenamings rightRenamings : List Renaming}
      (inLeft : RenamesCapturing name argument around given left leftResult leftRenamings)
      (inRight : RenamesCapturing name argument around given right rightResult rightRenamings) :
      RenamesCapturing name argument around given
        (.equal left right) (.equal leftResult rightResult) (rightRenamings ++ leftRenamings)
  | relate
      {around : List String}
      {given : NewVariables}
      {relation : SetRelation}
      {left right leftResult rightResult : Term}
      {leftRenamings rightRenamings : List Renaming}
      (inLeft : RenamesCapturing name argument around given left leftResult leftRenamings)
      (inRight : RenamesCapturing name argument around given right rightResult rightRenamings) :
      RenamesCapturing name argument around given
        (.relate relation left right) (.relate relation leftResult rightResult)
        (rightRenamings ++ leftRenamings)

/-- A name is neither that of a new variable nor a new name itself. -/
structure IsOld
    (other : String)
    (given : NewVariables)
    (renamings : List Renaming) : Prop where
  ofVariables : ∀ old, ∀ identifier ∈ given old, identifier.name ≠ other
  ofRenamings : ∀ done ∈ renamings, done.new ≠ other

section Renames

variable {name other : String} {argument term result : Term}
variable {around : List String} {given : NewVariables} {renamings : List Renaming}

/-- What is no new name in two parts is none in either. -/
theorem IsOld.both
    {first second : List Renaming}
    (isOld : IsOld other given (second ++ first)) :
    IsOld other given first ∧ IsOld other given second := by
  obtain ⟨inSecond, inFirst⟩ := List.forall_mem_append.mp isOld.ofRenamings
  exact ⟨⟨isOld.ofVariables, inFirst⟩, ⟨isOld.ofVariables, inSecond⟩⟩

/-- The new name of a binder is that of the variable which stands for it below. -/
theorem IsOld.give
    {binder : Binder}
    {old new : String}
    (isOld : IsOld other given (⟨binder, old, new⟩ :: renamings))
    (ty : Ty) :
    new ≠ other ∧
      IsOld other (Function.update given old (some ⟨new, ty⟩)) renamings := by
  obtain ⟨notNew, further⟩ := List.forall_mem_cons.mp isOld.ofRenamings
  refine ⟨notNew, fun asked identifier stands => ?_, further⟩
  by_cases same : asked = old
  · simp only [same, Function.update_self, Option.mem_some_iff] at stands
    simpa [← stands] using notNew
  · exact isOld.ofVariables asked identifier (by simpa [same] using stands)

/-- Below a binder that is kept nothing stands for its name. -/
theorem IsOld.keep
    (isOld : IsOld other given renamings)
    (old : String) :
    IsOld other (Function.update given old none) renamings := by
  refine ⟨fun asked identifier stands => ?_, isOld.ofRenamings⟩
  by_cases same : asked = old
  · simp [same] at stands
  · exact isOld.ofVariables asked identifier (by simpa [same] using stands)

/-- A name that is not new stays free unless something else stands for it. -/
theorem RenamesCapturing.hasFree_eq
    (renames : RenamesCapturing name argument around given term result renamings)
    (isOld : IsOld other given renamings) :
    result.hasFree other = (term.hasFree other && (given other).isNone) := by
  induction renames with
  | @var _ given identifier =>
      cases stands : given identifier.name with
      | none =>
          by_cases same : identifier.name = other
          · simp [hasFree, ← same, stands]
          · simp [hasFree, same]
      | some renamed =>
          have different := isOld.ofVariables _ renamed stands
          by_cases same : identifier.name = other
          · simp [hasFree, ← same, stands, same ▸ different]
          · simp [hasFree, same, different]
  | const =>
      rfl
  | @renamed _ _ _ bound _ _ _ _ _ _ _ _ _ _ inductionHypothesis =>
      obtain ⟨notNew, further⟩ := isOld.give bound.ty
      by_cases same : bound.name = other
      · simp [hasFree, inductionHypothesis further, same]
      · simp [hasFree, inductionHypothesis further, bne_iff_ne.mpr same, bne_iff_ne.mpr notNew,
          Ne.symm same]
  | @kept _ _ _ bound _ _ _ _ _ inductionHypothesis =>
      by_cases same : bound.name = other
      · simp [hasFree, same]
      · simp [hasFree, inductionHypothesis (isOld.keep _), bne_iff_ne.mpr same, Ne.symm same]
  | tupleNil =>
      rfl
  | neg _ inductionHypothesis =>
      exact inductionHypothesis isOld
  | tupleCons _ _ firstHypothesis secondHypothesis =>
      obtain ⟨first, second⟩ := isOld.both
      have inRest := secondHypothesis second
      simp only [hasFree, anyHasFree] at inRest ⊢
      simp only [firstHypothesis first, inRest, Bool.and_or_distrib_right]
  | app _ _ firstHypothesis secondHypothesis
  | connect _ _ firstHypothesis secondHypothesis
  | equal _ _ firstHypothesis secondHypothesis
  | relate _ _ firstHypothesis secondHypothesis =>
      obtain ⟨first, second⟩ := isOld.both
      simp [hasFree, firstHypothesis first, secondHypothesis second, Bool.and_or_distrib_right]

/--
Renaming what an outer binder binds, once everything below it is done, gives its
new variable to the place from the outset.
-/
theorem RenamesCapturing.substitute
    {identifier : Identifier}
    (renames : RenamesCapturing name argument around given term result renamings)
    (notGiven : given other = none)
    (isOld : IsOld other given renamings) :
    RenamesCapturing name argument around (Function.update given other (some identifier))
      term (Term.substitute other (.var identifier) result) renamings := by
  induction renames with
  | @var _ given occurrence =>
      have stays :
          Term.substitute other (.var identifier)
              (.var ((given occurrence.name).getD occurrence)) =
            .var ((Function.update given other (some identifier) occurrence.name).getD
              occurrence) := by
        by_cases same : occurrence.name = other
        · simp [Term.substitute, same, notGiven]
        · cases stands : given occurrence.name with
          | none =>
              simp [Term.substitute, stands, same]
          | some renamed =>
              have different := isOld.ofVariables _ renamed stands
              simp [Term.substitute, stands, same, different]
      exact stays ▸ .var occurrence
  | const constant =>
      exact .const constant
  | @renamed _ given _ bound _ _ _ new _ captured below notAround spelled inBody
      inductionHypothesis =>
      obtain ⟨notNew, further⟩ := isOld.give bound.ty
      simp only [Term.substitute, notNew, ↓reduceIte]
      refine .renamed captured below notAround spelled ?_
      -- Below a binder of the same name nothing of the outer variable is left to replace.
      by_cases same : bound.name = other
      · have absent := inBody.hasFree_eq further
        simp only [same, Function.update_self, Option.isNone_some, Bool.and_false] at absent
        simpa [same, substitute_eq_self absent] using inBody
      · rw [Function.update_comm (Ne.symm same)]
        exact inductionHypothesis (by simp [notGiven, Ne.symm same]) further
  | @kept _ given _ bound _ _ _ harmless inBody inductionHypothesis =>
      by_cases same : bound.name = other
      · simp only [Term.substitute, same, ↓reduceIte]
        refine .kept harmless ?_
        simpa [same] using inBody
      · simp only [Term.substitute, same, ↓reduceIte]
        refine .kept harmless ?_
        rw [Function.update_comm (Ne.symm same)]
        exact inductionHypothesis (by simp [notGiven, Ne.symm same]) (isOld.keep _)
  | tupleNil =>
      exact .tupleNil
  | neg _ inductionHypothesis =>
      exact .neg (inductionHypothesis notGiven isOld)
  | tupleCons _ _ firstHypothesis secondHypothesis =>
      obtain ⟨first, second⟩ := isOld.both
      exact .tupleCons (firstHypothesis notGiven first) (secondHypothesis notGiven second)
  | app _ _ firstHypothesis secondHypothesis =>
      obtain ⟨first, second⟩ := isOld.both
      exact .app (firstHypothesis notGiven first) (secondHypothesis notGiven second)
  | connect _ _ firstHypothesis secondHypothesis =>
      obtain ⟨first, second⟩ := isOld.both
      exact .connect (firstHypothesis notGiven first) (secondHypothesis notGiven second)
  | equal _ _ firstHypothesis secondHypothesis =>
      obtain ⟨first, second⟩ := isOld.both
      exact .equal (firstHypothesis notGiven first) (secondHypothesis notGiven second)
  | relate _ _ firstHypothesis secondHypothesis =>
      obtain ⟨first, second⟩ := isOld.both
      exact .relate (firstHypothesis notGiven first) (secondHypothesis notGiven second)

/-- Nothing is renamed where a binder around binds the name. -/
theorem renamesCapturing_self
    (isAround : name ∈ around)
    (term : Term) :
    RenamesCapturing name argument around (fun _ => none) term term [] := by
  induction term generalizing around with
  | var identifier =>
      exact .var identifier
  | const identifier =>
      exact .const identifier
  | bind binder bound body inductionHypothesis =>
      have isAroundBody : name ∈ bound.name :: around := List.mem_cons_of_mem _ isAround
      refine .kept (fun capturing => capturing.2.2 isAroundBody) ?_
      simpa using inductionHypothesis isAroundBody
  | tuple items inductionHypothesis =>
      induction items with
      | nil =>
          exact .tupleNil
      | cons item rest restHypothesis =>
          obtain ⟨inItem, inRest⟩ := List.forall_mem_cons.mp inductionHypothesis
          exact .tupleCons (inItem isAround) (restHypothesis inRest)
  | neg operand inductionHypothesis =>
      exact .neg (inductionHypothesis isAround)
  | app _ _ firstHypothesis secondHypothesis =>
      exact .app (firstHypothesis isAround) (secondHypothesis isAround)
  | connect _ _ _ firstHypothesis secondHypothesis =>
      exact .connect (firstHypothesis isAround) (secondHypothesis isAround)
  | equal _ _ firstHypothesis secondHypothesis =>
      exact .equal (firstHypothesis isAround) (secondHypothesis isAround)
  | relate _ _ _ firstHypothesis secondHypothesis =>
      exact .relate (firstHypothesis isAround) (secondHypothesis isAround)

end Renames

/--
A walk that has done some renamings makes a term into another one by the latest
of its renamings, whose new names have not been in use.
-/
structure Walks
    (used : List String)
    (name : String)
    (argument : Term)
    (around : List String)
    (term : Term)
    (done : List Renaming)
    (after : Renamed)
    (latest : List Renaming) : Prop where
  all : after.2 = latest ++ done
  unused : ∀ next ∈ latest, next.new ∉ used
  renames : RenamesCapturing name argument around (fun _ => none) term after.1 latest

/-- The fresh name for a name that is taken has at least one prime more. -/
theorem freshName_eq_append_primes_of_mem
    {taken : List String}
    {old : String}
    (isTaken : old ∈ taken) :
    ∃ primes,
      (freshName taken old).toList = old.toList ++ List.replicate (primes + 1) '\x27' := by
  obtain ⟨count, spelled⟩ := freshName_eq_append_primes taken old
  cases count with
  | zero =>
      have same : freshName taken old = old :=
        String.toList_injective (by simpa using spelled)
      exact (freshName_notMem taken old (same.symm ▸ isTaken)).elim
  | succ primes =>
      exact ⟨primes, spelled⟩

section Walk

variable {used around : List String} {name : String} {argument : Term}

/-- The walk through a node with two parts goes through one and then the other. -/
theorem exists_walks_both
    {node : Term → Term → Term}
    (combine :
      ∀ {left right leftResult rightResult leftRenamings rightRenamings},
        RenamesCapturing name argument around (fun _ => none) left leftResult leftRenamings →
          RenamesCapturing name argument around (fun _ => none) right rightResult
            rightRenamings →
            RenamesCapturing name argument around (fun _ => none) (node left right)
              (node leftResult rightResult) (rightRenamings ++ leftRenamings))
    {left right : Term}
    (inLeft :
      ∀ done, ∃ latest,
        Walks used name argument around left done
          (avoidCapture used name argument left done) latest)
    (inRight :
      ∀ done, ∃ latest,
        Walks used name argument around right done
          (avoidCapture used name argument right done) latest)
    {done : List Renaming}
    {middle last : Renamed}
    (isMiddle : middle = avoidCapture used name argument left done)
    (isLast : last = avoidCapture used name argument right middle.2) :
    ∃ latest,
      Walks used name argument around (node left right) done
        (node middle.1 last.1, last.2) latest := by
  obtain ⟨first, walksLeft⟩ := inLeft done
  obtain ⟨second, walksRight⟩ := inRight middle.2
  rw [← isMiddle] at walksLeft
  rw [← isLast] at walksRight
  refine ⟨second ++ first, by simp [walksRight.all, walksLeft.all], ?_, ?_⟩
  · exact List.forall_mem_append.mpr ⟨walksRight.unused, walksLeft.unused⟩
  · exact combine walksLeft.renames walksRight.renames

/-- A binder is walked through once its body is. -/
theorem Walks.bind
    {binder : Binder}
    {bound : Identifier}
    {body : Term}
    {done latest : List Renaming}
    (different : bound.name ≠ name)
    (notAround : name ∉ around)
    (boundUsed : bound.name ∈ used)
    (nameUsed : name ∈ used)
    (inBody :
      Walks used name argument (bound.name :: around) body done
        (avoidCapture used name argument body done) latest) :
    ∃ all,
      Walks used name argument around (.bind binder bound body) done
        (avoidCapture used name argument (.bind binder bound body) done) all := by
  have isOld
      {other : String}
      (inUse : other ∈ used) :
      IsOld other (fun _ => none) latest :=
    ⟨by simp, fun next member same => inBody.unused next member (same ▸ inUse)⟩
  have freeAsBefore := inBody.renames.hasFree_eq (isOld nameUsed)
  simp only [Option.isNone_none, Bool.and_true] at freeAsBefore
  have notAroundBody : name ∉ bound.name :: around := by
    simp [Ne.symm different, notAround]
  simp only [avoidCapture, different, ↓reduceIte]
  split
  · next capturing =>
      simp only [freeAsBefore, Bool.and_eq_true] at capturing
      have taken :
          bound.name ∈
            used ++ (avoidCapture used name argument body done).2.map Renaming.new :=
        List.mem_append_left _ boundUsed
      have fresh :=
        freshName_notMem (used ++ (avoidCapture used name argument body done).2.map Renaming.new)
          bound.name
      obtain ⟨primes, spelled⟩ := freshName_eq_append_primes_of_mem taken
      generalize freshName _ bound.name = new at fresh spelled
      simp only [List.mem_append, not_or] at fresh
      refine ⟨⟨binder, bound.name, new⟩ :: latest, by simp [inBody.all],
        List.forall_mem_cons.mpr ⟨fresh.1, inBody.unused⟩, ?_⟩
      refine .renamed capturing.1 capturing.2 notAroundBody spelled ?_
      exact inBody.renames.substitute rfl (isOld boundUsed)
  · next harmless =>
      simp only [freeAsBefore, Bool.and_eq_true] at harmless
      refine ⟨latest, inBody.all, inBody.unused, .kept ?_ (by simpa using inBody.renames)⟩
      exact fun capturing => harmless ⟨capturing.1, capturing.2.1⟩

/-- A list of terms is walked through as a tuple is. -/
theorem exists_walks_avoidCaptureInAll
    {items : List Term}
    (inItem :
      ∀ item ∈ items, ∀ done,
        ∃ latest,
          Walks used name argument around item done
            (avoidCapture used name argument item done) latest)
    (done : List Renaming) :
    ∃ latest,
      Walks used name argument around (.tuple items) done
        (.tuple (avoidCaptureInAll used name argument items done).1,
          (avoidCaptureInAll used name argument items done).2) latest := by
  induction items generalizing done with
  | nil =>
      exact ⟨[], rfl, by simp, .tupleNil⟩
  | cons item rest inductionHypothesis =>
      obtain ⟨inFirst, inRest⟩ := List.forall_mem_cons.mp inItem
      obtain ⟨first, walksFirst⟩ := inFirst done
      obtain ⟨second, walksRest⟩ :=
        inductionHypothesis inRest (avoidCapture used name argument item done).2
      refine ⟨second ++ first, ?_, ?_, ?_⟩
      · simpa [avoidCaptureInAll, walksFirst.all] using walksRest.all
      · exact List.forall_mem_append.mpr ⟨walksRest.unused, walksFirst.unused⟩
      · exact .tupleCons walksFirst.renames walksRest.renames

/-- The walk renames just the binders that capture, and gives them names that are not in use. -/
theorem exists_walks_avoidCapture
    {term : Term}
    (notAround : name ∉ around)
    (nameUsed : name ∈ used)
    (known : ∀ other ∈ term.nameOccurrences, other ∈ used)
    (done : List Renaming) :
    ∃ latest,
      Walks used name argument around term done
        (avoidCapture used name argument term done) latest := by
  induction term generalizing around done with
  | var identifier =>
      exact ⟨[], rfl, by simp, .var identifier⟩
  | const identifier =>
      exact ⟨[], rfl, by simp, .const identifier⟩
  | bind binder bound body inductionHypothesis =>
      obtain ⟨boundUsed, knownBody⟩ := List.forall_mem_cons.mp known
      by_cases same : bound.name = name
      · simp only [avoidCapture, same, ↓reduceIte]
        have isAround : name ∈ bound.name :: around := by
          simp [same]
        refine ⟨[], rfl, by simp, .kept (fun capturing => capturing.2.2 isAround) ?_⟩
        simpa using renamesCapturing_self isAround body
      · have notAroundBody : name ∉ bound.name :: around := by
          simp [Ne.symm same, notAround]
        obtain ⟨latest, inBody⟩ := inductionHypothesis notAroundBody knownBody done
        exact inBody.bind same notAround boundUsed nameUsed
  | tuple items inductionHypothesis =>
      refine exists_walks_avoidCaptureInAll (fun item member done => ?_) done
      refine inductionHypothesis item member notAround (fun other occurs => known other ?_) done
      simp only [nameOccurrences, nameOccurrencesInAll_eq_flatMap, List.mem_flatMap]
      exact ⟨item, member, occurs⟩
  | neg operand inductionHypothesis =>
      obtain ⟨latest, inOperand⟩ := inductionHypothesis notAround known done
      exact ⟨latest, inOperand.all, inOperand.unused, .neg inOperand.renames⟩
  | app left right firstHypothesis secondHypothesis =>
      obtain ⟨knownFirst, knownSecond⟩ := List.forall_mem_append.mp known
      exact exists_walks_both .app (firstHypothesis notAround knownFirst)
        (secondHypothesis notAround knownSecond) rfl rfl
  | connect connective left right firstHypothesis secondHypothesis =>
      obtain ⟨knownFirst, knownSecond⟩ := List.forall_mem_append.mp known
      exact exists_walks_both .connect (firstHypothesis notAround knownFirst)
        (secondHypothesis notAround knownSecond) rfl rfl
  | equal left right firstHypothesis secondHypothesis =>
      obtain ⟨knownFirst, knownSecond⟩ := List.forall_mem_append.mp known
      exact exists_walks_both .equal (firstHypothesis notAround knownFirst)
        (secondHypothesis notAround knownSecond) rfl rfl
  | relate relation left right firstHypothesis secondHypothesis =>
      obtain ⟨knownFirst, knownSecond⟩ := List.forall_mem_append.mp known
      exact exists_walks_both .relate (firstHypothesis notAround knownFirst)
        (secondHypothesis notAround knownSecond) rfl rfl

/-- No new name is given twice. -/
theorem RenameRun.nodup
    {first last : Renamed}
    (run : RenameRun used name argument first last)
    (nodup : (first.2.map Renaming.new).Nodup) :
    (last.2.map Renaming.new).Nodup := by
  induction run with
  | refl =>
      exact nodup
  | tail _ step inductionHypothesis =>
      obtain ⟨context, binder, bound, body, done, _, _, _⟩ := step
      have fresh := freshName_notMem (used ++ done.map Renaming.new) bound.name
      simp only [List.mem_append, not_or] at fresh
      exact List.nodup_cons.mpr ⟨fresh.2, inductionHypothesis⟩

end Walk

end Term

namespace Redex

/-- Just the binders that capture are renamed in the body, to names that are new to the redex. -/
theorem renamesCapturing_renamedBody (redex : Redex) :
    Term.RenamesCapturing redex.bound.name redex.argument [] (fun _ => none) redex.body
        redex.renamedBody.1 redex.renamedBody.2 ∧
      (redex.renamedBody.2.map Renaming.new).Nodup ∧
      ∀ done ∈ redex.renamedBody.2, done.new ∉ redex.toTerm.nameOccurrences := by
  have known : ∀ other ∈ redex.body.nameOccurrences, other ∈ redex.usedNames := by
    intro other occurs
    simp [usedNames, occurs]
  have walked :
      ∃ latest,
        Term.Walks redex.usedNames redex.bound.name redex.argument [] redex.body []
          redex.renamedBody latest :=
    Term.exists_walks_avoidCapture List.not_mem_nil List.mem_cons_self known []
  obtain ⟨latest, all, unused, renames⟩ := walked
  rw [List.append_nil] at all
  subst all
  have run :=
    Term.renameRun_avoidCapture redex.usedNames redex.bound.name redex.argument redex.body []
  refine ⟨renames, run.nodup (by simp), fun done member occurs => unused done member ?_⟩
  simpa [toTerm, function, Term.nameOccurrences, usedNames] using occurs

end Redex

namespace Term

/--
A renaming step changes no more than it takes. It changes the body of the
leftmost redex alone, and there just the binders that would capture a free
variable of the argument with what they bind, to old names with primes added
that differ from one another and occur nowhere in the redex; and the next step
is no renaming. So in every derivation a renaming is followed at once by a
contraction.
-/
theorem renamingStep_minimal (term : Term) :
    (∀ step, term.step? = .ok (some step) → step.kind = .alpha →
      ∃ (place : PlacedRedex) (body : Term) (renamings : List Renaming),
        place.whole = term ∧
          place.IsLeftmost ∧
          step.result =
            place.replace (Redex.toTerm ⟨place.redex.bound, body, place.redex.argument⟩) ∧
          RenamesCapturing place.redex.bound.name place.redex.argument [] (fun _ => none)
            place.redex.body body renamings ∧
          (renamings.map Renaming.new).Nodup ∧
          (∀ done ∈ renamings, done.new ∉ place.redex.toTerm.nameOccurrences) ∧
          ∀ next, step.result.step? = .ok (some next) → next.kind = .beta) ∧
      ∀ limit steps, term.derivation limit = .ok steps →
        ∀ earlier step later, steps = earlier ++ step :: later → step.kind = .alpha →
          ∃ next rest, later = next :: rest ∧ next.kind = .beta := by
  constructor
  · intro step stepped alpha
    obtain ⟨place, found, result, _⟩ := leftmostRedex?_of_alpha stepped alpha
    obtain ⟨whole, leftmost⟩ := isLeftmost_of_leftmostRedex? found
    obtain ⟨renames, nodup, unused⟩ := place.redex.renamesCapturing_renamedBody
    exact ⟨place, _, _, whole, leftmost, result, renames, nodup, unused,
      fun _ steppedAgain => kind_eq_beta_of_alpha stepped alpha steppedAgain⟩
  · intro limit steps derived earlier step later shape alpha
    obtain ⟨_, last, run, free⟩ := derivationWithin_eq_ok_iff.mp derived
    rw [shape] at run
    obtain ⟨between, _, fromBetween⟩ := run.exists_between
    cases fromBetween with
    | step stepped rest =>
        cases rest with
        | done =>
            -- The redex is still there, so the derivation cannot have ended.
            obtain ⟨_, _, _, found⟩ := leftmostRedex?_of_alpha stepped alpha
            simp [leftmostRedex?_eq_none_iff.mpr free] at found
        | step steppedAgain _ =>
            exact ⟨_, _, rfl, kind_eq_beta_of_alpha stepped alpha steppedAgain⟩

/-- The term R(a,b) of two variables. -/
def relatedPair (first second : String) : Term :=
  .app (.const ⟨"R", .predicate (.prod [.entity, .entity])⟩)
    (.tuple [.var ⟨first, .entity⟩, .var ⟨second, .entity⟩])

/-- The term ∃y.R(a,y) ∧ ∃z.R(a,z), for any names in the places of a, y and z. -/
def nestedPairs (first outer inner : String) : Term :=
  .bind .existential ⟨outer, .entity⟩
    (.connect .conjunction (relatedPair first outer)
      (.bind .existential ⟨inner, .entity⟩ (relatedPair first inner)))

/-- The redex (λx.∃y.R(x,y) ∧ ∃z.R(x,z))(y), for any names of the two variables bound inside. -/
def nestedRedex (outer inner : String) : Redex where
  bound := ⟨"x", .entity⟩
  body := nestedPairs "x" outer inner
  argument := .var ⟨"y", .entity⟩

theorem typed_nestedRedex
    {outer inner : String}
    (outerOther : outer ≠ "x")
    (innerOther : inner ≠ "x") :
    Typed .empty (nestedRedex outer inner).toTerm .truth where
  monomorphic := by
    simp [nestedRedex, nestedPairs, relatedPair, Redex.toTerm, Redex.function, Ty.predicate,
      Ty.entity]
  annotated := by
    simp [nestedRedex, nestedPairs, relatedPair, Redex.toTerm, Redex.function, AnnotatedIn,
      Scope.empty, outerOther.symm, innerOther.symm]
  hasType := by
    simp [nestedRedex, nestedPairs, relatedPair, Redex.toTerm, Redex.function,
      binderRule_lambda_iff, binderRule_existential_iff, Ty.predicate]

theorem leftmostRedex?_nestedRedex {outer inner : String} :
    (nestedRedex outer inner).toTerm.leftmostRedex? = some ⟨[], nestedRedex outer inner⟩ :=
  rfl

/-- Both binders of y are renamed at once. -/
theorem step?_nestedRedex :
    (nestedRedex "y" "y").toTerm.step? =
      .ok (some ⟨.alpha, (nestedRedex "y''" "y'").toTerm⟩) := by
  have captures : (nestedRedex "y" "y").Captures := by
    simp [nestedRedex, nestedPairs, relatedPair, Redex.Captures, captures_bind_iff, hasFree,
      anyHasFree]
  have apart : (nestedRedex "y" "y").renamed = nestedRedex "y''" "y'" := by
    decide +kernel
  have stepped :=
    (typed_nestedRedex (by decide) (by decide)).step?_of_captures leftmostRedex?_nestedRedex
      captures
  rw [apart] at stepped
  exact stepped

/-- With other names than y the argument is put in. -/
theorem step?_nestedRedex_renamed :
    (nestedRedex "y''" "y'").toTerm.step? =
      .ok (some ⟨.beta, nestedPairs "y" "y''" "y'"⟩) := by
  have safe : ¬(nestedRedex "y''" "y'").Captures := by
    simp [nestedRedex, nestedPairs, relatedPair, Redex.Captures, captures_bind_iff,
      captures_connect_iff, captures_app_iff, captures_tuple_iff, hasFree]
  have stepped :=
    (typed_nestedRedex (by decide) (by decide)).step?_of_not_captures
      leftmostRedex?_nestedRedex safe
  simpa [PlacedRedex.replace, nestedRedex, nestedPairs, relatedPair, substitute, substituteAll]
    using stepped

/--
The step from (λx.∃y.R(x,y) ∧ ∃y.R(x,y))(y) gives the two binders of y different
names, and the one after it puts in the argument.
-/
theorem renamingStep_minimal_nestedRedex :
    (nestedRedex "y" "y").toTerm.derivation 2 =
        .ok [⟨.alpha, (nestedRedex "y''" "y'").toTerm⟩, ⟨.beta, nestedPairs "y" "y''" "y'"⟩] ∧
      (∃ (place : PlacedRedex) (body : Term) (renamings : List Renaming),
        (nestedRedex "y''" "y'").toTerm =
            place.replace (Redex.toTerm ⟨place.redex.bound, body, place.redex.argument⟩) ∧
          RenamesCapturing place.redex.bound.name place.redex.argument [] (fun _ => none)
            place.redex.body body renamings ∧
          (renamings.map Renaming.new).Nodup) ∧
      ∃ next rest,
        [⟨.beta, nestedPairs "y" "y''" "y'"⟩] = next :: rest ∧ Step.kind next = .beta := by
  have free : (nestedPairs "y" "y''" "y'").RedexFree :=
    step?_eq_ok_none_iff.mp rfl
  have derived :
      (nestedRedex "y" "y").toTerm.derivation 2 =
        .ok [⟨.alpha, (nestedRedex "y''" "y'").toTerm⟩,
          ⟨.beta, nestedPairs "y" "y''" "y'"⟩] :=
    derivationWithin_eq_ok_iff.mpr
      ⟨Nat.le_refl 2, _, .step step?_nestedRedex (.step step?_nestedRedex_renamed (.done _)),
        free⟩
  obtain ⟨minimal, followed⟩ := renamingStep_minimal (nestedRedex "y" "y").toTerm
  obtain ⟨place, body, renamings, _, _, result, renames, nodup, _⟩ :=
    minimal _ step?_nestedRedex rfl
  exact ⟨derived, ⟨place, body, renamings, result, renames, nodup⟩,
    followed 2 _ derived [] _ _ rfl rfl⟩

end Term

end TypedLambda
