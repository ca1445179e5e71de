import TypedLambda.Proofs.Ty.RenameApart

namespace TypedLambda.Ty

/-!
# Unification by nested calls

Unification can also be done by calls for one equation each. A call puts the
substitution found so far into both sides, which may make them much larger,
looks at their outermost forms, and calls itself for the parts; each call starts
from what the one before it has left. This need not come to an end if a variable
has been given a type that contains it. But if no variable that has been
replaced occurs in a type that a variable has been given, the calls end with
what working off the list of equations gives, and they leave a substitution of
that kind again.
-/

/--
What a call does with two types into which the substitution has been put: there
are equations between parts of them left to solve, with the substitution, in
which one more variable may have been replaced.
-/
def dissect (solution : Substitution) : Ty → Ty → Except Conflict Unification
  | .var letter, ty =>
      if ty = .var letter then
        .ok ([], solution)
      else if letter ∈ ty.letters then
        .error (.occurs letter ty)
      else
        .ok ([], (Substitution.single letter ty).compose solution)
  | ty, .var letter =>
      if letter ∈ ty.letters then
        .error (.occurs letter ty)
      else
        .ok ([], (Substitution.single letter ty).compose solution)
  | .atom left, .atom right =>
      if left = right then .ok ([], solution) else .error .clash
  | .fn domain range, .fn otherDomain otherRange =>
      .ok ([(domain, otherDomain), (range, otherRange)], solution)
  | .prod factors, .prod others =>
      if factors.length = others.length then
        .ok (factors.zip others, solution)
      else
        .error .clash
  | _, _ => .error .clash

/--
The calls for a list of equations come to an end with an outcome. Each equation
is worked off with all that is inside of it before it is the next one's turn.
-/
inductive Settles : Unification → Except Conflict Substitution → Prop where
  /-- No equation is left. -/
  | done (solution : Substitution) : Settles ([], solution) (.ok solution)
  /-- The types have a conflict at the outside. -/
  | refused
      {solution : Substitution}
      {left right : Ty}
      {rest : Equations}
      {conflict : Conflict}
      (dissected : dissect solution (solution.apply left) (solution.apply right) = .error conflict) :
      Settles ((left, right) :: rest, solution) (.error conflict)
  /-- Their parts have a conflict. -/
  | refusedInside
      {solution : Substitution}
      {left right : Ty}
      {rest : Equations}
      {inside : Unification}
      {conflict : Conflict}
      (dissected : dissect solution (solution.apply left) (solution.apply right) = .ok inside)
      (refused : Settles inside (.error conflict)) :
      Settles ((left, right) :: rest, solution) (.error conflict)
  /-- The types are made the same, and the rest follows. -/
  | next
      {solution found : Substitution}
      {left right : Ty}
      {rest : Equations}
      {inside : Unification}
      {outcome : Except Conflict Substitution}
      (dissected : dissect solution (solution.apply left) (solution.apply right) = .ok inside)
      (settled : Settles inside (.ok found))
      (further : Settles (rest, found) outcome) :
      Settles ((left, right) :: rest, solution) outcome

namespace Settles

/-- There is one outcome at most. -/
theorem unique
    {state : Unification}
    {outcome other : Except Conflict Substitution}
    (settles : Settles state outcome)
    (settlesToo : Settles state other) :
    outcome = other := by
  induction settles generalizing other with
  | done solution =>
      cases settlesToo
      rfl
  | refused dissected =>
      cases settlesToo <;> simp_all
  | refusedInside dissected refused inductionHypothesis =>
      cases settlesToo with
      | refused dissectedToo =>
          simp_all
      | refusedInside dissectedToo refusedToo =>
          rw [dissected, Except.ok.injEq] at dissectedToo
          subst dissectedToo
          exact inductionHypothesis refusedToo
      | next dissectedToo settledToo _ =>
          rw [dissected, Except.ok.injEq] at dissectedToo
          subst dissectedToo
          cases inductionHypothesis settledToo
  | next dissected settled further insideHypothesis furtherHypothesis =>
      cases settlesToo with
      | refused dissectedToo =>
          simp_all
      | refusedInside dissectedToo refusedToo =>
          rw [dissected, Except.ok.injEq] at dissectedToo
          subst dissectedToo
          cases insideHypothesis refusedToo
      | next dissectedToo settledToo furtherToo =>
          rw [dissected, Except.ok.injEq] at dissectedToo
          subst dissectedToo
          cases insideHypothesis settledToo
          exact furtherHypothesis furtherToo

/-- The calls for a list of equations end as those for its two parts do, one after the other. -/
theorem append_cases
    {first second : Equations}
    {solution : Substitution}
    {outcome : Except Conflict Substitution}
    (settles : Settles (first ++ second, solution) outcome) :
    (∃ conflict, Settles (first, solution) (.error conflict) ∧ .error conflict = outcome) ∨
      ∃ found, Settles (first, solution) (.ok found) ∧ Settles (second, found) outcome := by
  induction first generalizing solution with
  | nil =>
      exact .inr ⟨solution, .done solution, settles⟩
  | cons equation first inductionHypothesis =>
      cases settles with
      | refused dissected =>
          exact .inl ⟨_, .refused dissected, rfl⟩
      | refusedInside dissected refused =>
          exact .inl ⟨_, .refusedInside dissected refused, rfl⟩
      | next dissected settled further =>
          rcases inductionHypothesis further with
            ⟨conflict, refused, rfl⟩ | ⟨found, settledFirst, settledSecond⟩
          · exact .inl ⟨conflict, .next dissected settled refused, rfl⟩
          · exact .inr ⟨found, .next dissected settled settledFirst, settledSecond⟩

section instantiate

variable {solution : Substitution} {equations rest : Equations} {left right : Ty}

/-- The calls end with a conflict at the outside of the first equation. -/
theorem of_error
    {conflict : Conflict}
    (shape : equations.instantiate solution = (left, right) :: rest)
    (dissected : dissect solution left right = .error conflict) :
    Settles (equations, solution) (.error conflict) := by
  obtain ⟨⟨source, otherSource⟩, inner, rfl, same, rfl⟩ := List.map_eq_cons_iff.mp shape
  obtain ⟨rfl, rfl⟩ := Prod.mk.inj same
  exact .refused dissected

/-- The equations between parts may be worked off as if they stood in the list themselves. -/
theorem of_parts
    (parts : Equations)
    (after : Substitution)
    {outcome : Except Conflict Substitution}
    (shape : equations.instantiate solution = (left, right) :: rest)
    (dissected : dissect solution left right = .ok (parts, after))
    (settles :
      ∀ inner : Equations, inner.instantiate solution = rest →
        Settles (parts ++ inner, after) outcome) :
    Settles (equations, solution) outcome := by
  obtain ⟨⟨source, otherSource⟩, inner, rfl, same, rfl⟩ := List.map_eq_cons_iff.mp shape
  obtain ⟨rfl, rfl⟩ := Prod.mk.inj same
  rcases (settles inner rfl).append_cases with
    ⟨conflict, refused, rfl⟩ | ⟨found, settled, further⟩
  · exact .refusedInside dissected refused
  · exact .next dissected settled further

end instantiate

end Settles

/-- Equations may be substituted into twice, or once with the composition. -/
theorem Equations.instantiate_compose
    (outer inner : Substitution)
    (equations : Equations) :
    equations.instantiate (outer.compose inner) =
      (equations.instantiate inner).instantiate outer := by
  simp [instantiate, Substitution.apply_compose]

/-- The parts of types into which a substitution has been put are left as they are by it. -/
theorem Unification.Sound.instantiate_append
    {known : List Char}
    {parts inner : Equations}
    {solution : Substitution}
    (sound : Sound known (parts ++ inner.instantiate solution, solution)) :
    Equations.instantiate solution (parts ++ inner) = parts ++ inner.instantiate solution := by
  have unchanged : parts.map (Prod.map solution.apply solution.apply) = parts.map id := by
    refine List.map_congr_left fun equation member => ?_
    have unbound
        {letter : Char}
        (occurs : letter ∈ equation.1.letters ∨ letter ∈ equation.2.letters) :
        solution.get? letter = none :=
      sound.eliminated letter
        (List.mem_flatMap.mpr ⟨equation, List.mem_append_left _ member, List.mem_append.mpr occurs⟩)
    have leftKept : solution.apply equation.1 = equation.1 :=
      Substitution.apply_eq_self fun letter occurs => unbound (.inl occurs)
    have rightKept : solution.apply equation.2 = equation.2 :=
      Substitution.apply_eq_self fun letter occurs => unbound (.inr occurs)
    rw [Prod.map, leftKept, rightKept, id]
  rw [List.map_id] at unchanged
  rw [Equations.instantiate, List.map_append]
  exact congrArg (· ++ _) unchanged

/--
The calls come to an end where working off the equations does that have been
substituted into, since each call stands for one step of that.
-/
theorem settles_unify
    {known : List Char}
    {equations : Equations}
    {solution : Substitution}
    (sound : Unification.Sound known (equations.instantiate solution, solution)) :
    Settles (equations, solution) (unify (equations.instantiate solution) solution) := by
  generalize shape : equations.instantiate solution = current at sound
  fun_induction unify current solution generalizing equations with
  | case1 solution =>
      obtain rfl := List.map_eq_nil_iff.mp shape
      exact .done solution
  | case2 letter rest solution inductionHypothesis =>
      refine .of_parts [] solution shape (by simp [dissect]) fun inner same => ?_
      exact inductionHypothesis same (UnifyStep.sound (.drop _ _ _) sound)
  | case3 letter ty rest solution different member =>
      exact .of_error shape (by simp [dissect, different, member])
  | case4 letter ty rest solution different acyclic inductionHypothesis =>
      refine .of_parts [] ((Substitution.single letter ty).compose solution) shape
        (by simp [dissect, different, acyclic]) fun inner same => ?_
      exact inductionHypothesis (by rw [List.nil_append, Equations.instantiate_compose, same])
        (UnifyStep.sound (.solve letter ty _ _ _ _ (.inl ⟨rfl, rfl⟩) acyclic) sound)
  | case5 ty letter rest solution noVariable member =>
      exact .of_error shape (by simp [dissect, member])
  | case6 ty letter rest solution noVariable acyclic inductionHypothesis =>
      refine .of_parts [] ((Substitution.single letter ty).compose solution) shape
        (by simp [dissect, acyclic]) fun inner same => ?_
      exact inductionHypothesis (by rw [List.nil_append, Equations.instantiate_compose, same])
        (UnifyStep.sound (.solve letter ty _ _ _ _ (.inr ⟨rfl, rfl⟩) acyclic) sound)
  | case7 letter rest solution inductionHypothesis =>
      refine .of_parts [] solution shape (by simp [dissect]) fun inner same => ?_
      exact inductionHypothesis same (UnifyStep.sound (.drop _ _ _) sound)
  | case8 letter other rest solution different =>
      exact .of_error shape (by simp [dissect, different])
  | case9 domain range otherDomain otherRange rest solution
      inductionHypothesis =>
      let parts := [(domain, otherDomain), (range, otherRange)]
      refine .of_parts parts solution shape rfl fun inner same => ?_
      have soundAfter : Unification.Sound known (parts ++ rest, solution) :=
        UnifyStep.sound (.functions _ _ _ _ _ _) sound
      subst same
      exact inductionHypothesis soundAfter.instantiate_append soundAfter
  | case10 factors others rest solution sameLength inductionHypothesis =>
      refine .of_parts (factors.zip others) solution shape
        (by simp [dissect, sameLength]) fun inner same => ?_
      have soundAfter := UnifyStep.sound (.products _ _ _ _ sameLength) sound
      subst same
      exact inductionHypothesis soundAfter.instantiate_append soundAfter
  | case11 factors others rest solution differentLength =>
      exact .of_error shape (by simp [dissect, differentLength])
  | case12 equation rest solution noVariable noVariable' noAtoms
      noFunctions noProducts =>
      obtain ⟨left, right⟩ := equation
      refine .of_error shape ?_
      unfold dissect
      split
      · exact (noVariable _ _ rfl).elim
      · exact (noVariable' _ _ rfl).elim
      · exact (noAtoms _ _ rfl).elim
      · exact (noFunctions _ _ _ _ rfl).elim
      · exact (noProducts _ _ rfl).elim
      · rfl

/--
A substitution is resolved exactly if applying it twice is applying it once and
no variable is given a type that contains it.
-/
theorem Substitution.resolved_iff {substitution : Substitution} :
    substitution.Resolved ↔
      substitution.Absorbs substitution ∧
        ∀ letter image, substitution.get? letter = some image → letter ∉ image.letters := by
  constructor
  · intro resolved
    refine ⟨resolved.absorbs_self, fun letter image found member => ?_⟩
    have unbound := resolved letter image found letter member
    simp [found] at unbound
  · rintro ⟨idempotent, acyclic⟩ letter image found other member
    have kept : substitution.apply image = image := by
      have atLetter := idempotent (.var letter)
      simpa [apply, found] using atLetter
    have otherKept := apply_eq_self_iff.mp kept other member
    cases otherFound : substitution.get? other with
    | none =>
        rfl
    | some otherImage =>
        have isItself : otherImage = .var other := by
          simpa [apply, otherFound] using otherKept
        exact (acyclic other otherImage otherFound (by simp [isItself, letters])).elim

/-- No variable that a resolved substitution replaces is left where it has been applied. -/
theorem Substitution.Resolved.get?_eq_none_of_mem_apply
    {substitution : Substitution}
    {ty : Ty}
    {letter : Char}
    (resolved : substitution.Resolved)
    (member : letter ∈ (substitution.apply ty).letters) :
    substitution.get? letter = none := by
  obtain ⟨source, _, inImage⟩ := exists_mem_letters_of_mem_letters_apply member
  cases found : substitution.get? source with
  | none =>
      have isSource : letter = source := by
        simpa [apply, found, letters] using inImage
      rw [isSource, found]
  | some image =>
      exact resolved source image found letter (by simpa [apply, found] using inImage)

/-- Equations into which a resolved substitution has been put make a sound state with it. -/
theorem Unification.exists_sound
    {solution : Substitution}
    (resolved : solution.Resolved)
    (equations : Equations) :
    ∃ known, Sound known (equations.instantiate solution, solution) := by
  refine ⟨Equations.letters (equations.instantiate solution) ++
    solution.entries.flatMap fun entry => entry.1 :: entry.2.letters, ?_⟩
  constructor
  · exact resolved
  · intro letter member
    obtain ⟨_, isEquation, inSides⟩ := List.mem_flatMap.mp member
    obtain ⟨equation, _, rfl⟩ := List.mem_map.mp isEquation
    rcases List.mem_append.mp inSides with inLeft | inRight
    · exact resolved.get?_eq_none_of_mem_apply inLeft
    · exact resolved.get?_eq_none_of_mem_apply inRight
  · intro letter member
    exact List.mem_append_left _ member
  · intro letter image found
    have isEntry : (letter, image) ∈ solution.entries := Substitution.mem_entries_iff.mpr found
    have isKnown
        {other : Char}
        (member : other ∈ letter :: image.letters) :
        other ∈ solution.entries.flatMap fun entry => entry.1 :: entry.2.letters :=
      List.mem_flatMap.mpr ⟨(letter, image), isEntry, member⟩
    exact ⟨List.mem_append_right _ (isKnown List.mem_cons_self),
      fun other member => List.mem_append_right _ (isKnown (List.mem_cons_of_mem _ member))⟩

/-- The calls need not end if a variable has been given a function type with itself as domain. -/
theorem not_settles_of_own_domain
    {solution : Substitution}
    {letter : Char}
    {range : Ty}
    (found : solution.get? letter = some (.fn (.var letter) range))
    (rest : Equations)
    (outcome : Except Conflict Substitution) :
    ¬Settles ((.var letter, .var letter) :: rest, solution) outcome := by
  have image : solution.apply (.var letter) = .fn (.var letter) range := by
    simp [Substitution.apply, found]
  generalize shape : ((.var letter, .var letter) :: rest, solution) = state
  intro settles
  induction settles generalizing rest with
  | done _ =>
      cases shape
  | refused dissected =>
      cases shape
      simp [image, dissect] at dissected
  | refusedInside dissected _ inductionHypothesis =>
      cases shape
      rw [image, dissect, Except.ok.injEq] at dissected
      exact inductionHypothesis _ dissected
  | next dissected _ _ insideHypothesis _ =>
      cases shape
      rw [image, dissect, Except.ok.injEq] at dissected
      exact insideHypothesis _ dissected

/--
If a substitution is idempotent and gives no variable a type that contains it,
the calls that start from it end for any two types, with exactly one outcome:
the one that working off the equation of the substituted types has. If this is a
substitution, it is idempotent again, and no variable that it replaces occurs in
a type that it gives to a variable.
-/
theorem settles_of_idempotent
    {solution : Substitution}
    (idempotent : solution.Absorbs solution)
    (acyclic : ∀ letter image, solution.get? letter = some image → letter ∉ image.letters)
    (left right : Ty) :
    (∃ outcome, Settles ([(left, right)], solution) outcome) ∧
      ∀ outcome, Settles ([(left, right)], solution) outcome →
        outcome = unify [(solution.apply left, solution.apply right)] solution ∧
          ∀ result, outcome = .ok result →
            result.Absorbs result ∧
              ∀ letter image, result.get? letter = some image →
                ∀ other ∈ image.letters, result.get? other = none := by
  obtain ⟨known, sound⟩ :=
    Unification.exists_sound (Substitution.resolved_iff.mpr ⟨idempotent, acyclic⟩) [(left, right)]
  have settles := settles_unify sound
  refine ⟨⟨_, settles⟩, fun outcome settlesToo => ⟨settlesToo.unique settles, ?_⟩⟩
  rintro result rfl
  have unified := (settlesToo.unique settles).symm
  obtain ⟨soundAfter, _⟩ := unifyRun_sound (unifyRun_of_unify unified) sound
  exact ⟨soundAfter.resolved.absorbs_self, soundAfter.resolved⟩

/-- The substitution that has given 'a the type <'b,'b>. -/
def doubled : Substitution :=
  .single 'a' (.fn (.var 'b') (.var 'b'))

/-- The type <'a,'b×'a>. -/
def growingLeft : Ty :=
  .fn (.var 'a') (.prod [.var 'b', .var 'a'])

/-- The type <'c,e×'c>. -/
def growingRight : Ty :=
  .fn (.var 'c') (.prod [.entity, .var 'c'])

/-- The calls end, though what 'a and 'c stand for is put in, and grows, again and again. -/
theorem settles_of_idempotent_doubled :
    doubled.Absorbs doubled ∧
      (∀ letter image, doubled.get? letter = some image → letter ∉ image.letters) ∧
      ∃ result,
        Settles ([(growingLeft, growingRight)], doubled) (.ok result) ∧
          result.get? 'a' = some (.fn .entity .entity) ∧
          result.get? 'c' = some (.fn .entity .entity) ∧
          result.Absorbs result ∧
          ∀ letter image, result.get? letter = some image →
            ∀ other ∈ image.letters, result.get? other = none := by
  have resolved : doubled.Resolved := by
    intro letter image found other member
    obtain ⟨rfl, rfl⟩ : letter = 'a' ∧ .fn (.var 'b') (.var 'b') = image := by
      simpa [doubled] using found
    have isB : other = 'b' := by
      simpa [letters] using member
    simp [doubled, isB]
  obtain ⟨idempotent, acyclic⟩ := Substitution.resolved_iff.mp resolved
  obtain ⟨⟨outcome, settles⟩, decided⟩ :=
    settles_of_idempotent idempotent acyclic growingLeft growingRight
  obtain ⟨unified, idempotentAfter⟩ := decided outcome settles
  have solved :
      ∃ result,
        unify [(doubled.apply growingLeft, doubled.apply growingRight)] doubled = .ok result ∧
          result.get? 'a' = some (.fn .entity .entity) ∧
          result.get? 'c' = some (.fn .entity .entity) := by
    simp [doubled, growingLeft, growingRight, unify, letters, Equations.instantiate,
      Substitution.apply, Substitution.applyAll, Substitution.get?_compose, entity]
  obtain ⟨result, isResult, ofA, ofC⟩ := solved
  have isOutcome : outcome = .ok result := unified.trans isResult
  subst isOutcome
  exact ⟨idempotent, acyclic, result, settles, ofA, ofC, idempotentAfter result rfl⟩

end TypedLambda.Ty
