import TypedLambda.Proofs.Conversion.Capture
import TypedLambda.Proofs.Nameless.Reduction

namespace TypedLambda.Term

/-!
# Contraction with and without names

Naive substitution in a term with names is substitution in the nameless term,
as long as nothing is captured. An occurrence that is not replaced has to be
carried over by the substitution: it refers to the same binder afterwards as
before, although that binder may be a different number of binders away. Hence
a contraction that captures nothing is a reduction of the nameless term,
wherever the redex stands.
-/

open Nameless (Images Reduces under extend)

@[simp] theorem namelessIn_var_cons_self
    (name : String)
    (ty : Ty)
    (scope : List String) :
    (Term.var ⟨name, ty⟩).namelessIn (name :: scope) = .bound 0 ty := by
  simp [namelessIn, List.idxOf?_cons]

/-- An occurrence that another binder does not bind is one binder further from its own. -/
theorem namelessIn_var_cons_of_ne
    {bound name : String}
    (different : bound ≠ name)
    (ty : Ty)
    (scope : List String) :
    (Term.var ⟨name, ty⟩).namelessIn (bound :: scope) =
      ((Term.var ⟨name, ty⟩).namelessIn scope).shift := by
  cases found : scope.idxOf? name <;>
    simp [namelessIn, List.idxOf?_cons, different, found, Nameless.shift, Nameless.rename]

/-- A substitution takes the occurrences of a name below some binders to those below others. -/
def Carries (images : Images) (scope other : List String) (name : String) : Prop :=
  ∀ ty, ((Term.var ⟨name, ty⟩).namelessIn scope).substitute images =
    (Term.var ⟨name, ty⟩).namelessIn other

/-- What is carried over still is below one more binder. -/
theorem Carries.enter
    {images : Images}
    {scope other : List String}
    {name : String}
    (carries : Carries images scope other name)
    (bound : String) :
    Carries (under images) (bound :: scope) (bound :: other) name := by
  intro ty
  by_cases isBound : bound = name
  · subst isBound
    rw [namelessIn_var_cons_self, namelessIn_var_cons_self]
    rfl
  · rw [namelessIn_var_cons_of_ne isBound, namelessIn_var_cons_of_ne isBound,
      Nameless.substitute_under_shift, carries ty]

/-- The body of a binder has its free names carried over if the whole term has. -/
theorem carries_body
    {images : Images}
    {scope other : List String}
    {binder : Binder}
    {bound : Identifier}
    {body : Term}
    (carries :
      ∀ name, (Term.bind binder bound body).hasFree name = true →
        Carries images scope other name)
    {name : String}
    (free : body.hasFree name = true) :
    Carries (under images) (bound.name :: scope) (bound.name :: other) name := by
  by_cases isBound : bound.name = name
  · subst isBound
    intro ty
    rw [namelessIn_var_cons_self, namelessIn_var_cons_self]
    rfl
  · exact (carries name (by simp [hasFree, isBound, free])).enter bound.name

/-- A substitution that carries over all free names takes the whole term along. -/
theorem substitute_namelessIn
    {term : Term}
    {images : Images}
    {scope other : List String}
    (carries :
      ∀ name, term.hasFree name = true → Carries images scope other name) :
    (term.namelessIn scope).substitute images = term.namelessIn other := by
  induction term generalizing images scope other with
  | var identifier =>
      exact carries identifier.name (by simp [hasFree]) identifier.ty
  | const identifier =>
      rfl
  | bind binder bound body inductionHypothesis =>
      have inBody := inductionHypothesis fun name free => carries_body carries free
      simp only [namelessIn, Nameless.substitute, inBody]
  | tuple items inductionHypothesis =>
      simp only [namelessIn, namelessAllIn_eq_map, Nameless.substitute,
        Nameless.substituteAll_eq_map, List.map_map, Nameless.tuple.injEq]
      refine List.map_congr_left fun item member =>
        inductionHypothesis item member fun name free => carries name ?_
      simp only [hasFree, anyHasFree_eq_any, List.any_eq_true]
      exact ⟨item, member, free⟩
  | neg operand inductionHypothesis =>
      simp only [namelessIn, Nameless.substitute, inductionHypothesis carries]
  | app _ _ firstHypothesis secondHypothesis
  | connect _ _ _ firstHypothesis secondHypothesis
  | equal _ _ firstHypothesis secondHypothesis
  | relate _ _ _ firstHypothesis secondHypothesis =>
      have first := firstHypothesis fun name free =>
        carries name (by simp [hasFree, free])
      have second := secondHypothesis fun name free =>
        carries name (by simp [hasFree, free])
      simp only [namelessIn, Nameless.substitute, first, second]

/-- A binder around a term that does not mention its variable only moves the others away. -/
theorem namelessIn_cons_of_absent
    {name : String}
    {term : Term}
    (absent : term.hasFree name = false)
    (scope : List String) :
    term.namelessIn (name :: scope) = (term.namelessIn scope).shift := by
  rw [Nameless.shift_eq_substitute]
  refine (substitute_namelessIn fun other free ty => ?_).symm
  have different : name ≠ other := by
    intro same
    simp [← same, absent] at free
  rw [← Nameless.shift_eq_substitute, namelessIn_var_cons_of_ne different]

/-- What stands for a name below some binders is what replaces it, seen from below others. -/
structure Replaces
    (images : Images)
    (scope other : List String)
    (name : String)
    (replacement : Term) : Prop where
  atName :
    ∀ ty, ((Term.var ⟨name, ty⟩).namelessIn scope).substitute images =
      replacement.namelessIn other
  elsewhere : ∀ outside, outside ≠ name → Carries images scope other outside

/-- A name may be replaced below a binder that binds nothing of what replaces it. -/
theorem Replaces.enter
    {images : Images}
    {scope other : List String}
    {name : String}
    {replacement : Term}
    (replaces : Replaces images scope other name replacement)
    {bound : String}
    (different : bound ≠ name)
    (outside : replacement.hasFree bound = false) :
    Replaces (under images) (bound :: scope) (bound :: other) name replacement where
  atName ty := by
    rw [namelessIn_var_cons_of_ne different, Nameless.substitute_under_shift,
      replaces.atName ty, namelessIn_cons_of_absent outside]
  elsewhere outside notName := (replaces.elsewhere outside notName).enter bound

/-- Where nothing is captured, naive substitution is substitution in the nameless term. -/
theorem namelessIn_substitute
    {name : String}
    {replacement term : Term}
    {images : Images}
    {scope other : List String}
    (safe : ¬Captures name replacement term)
    (replaces : Replaces images scope other name replacement) :
    (substitute name replacement term).namelessIn other =
      (term.namelessIn scope).substitute images := by
  induction term generalizing images scope other with
  | var identifier =>
      rw [substitute]
      by_cases same : identifier.name = name
      · rw [if_pos same, ← replaces.atName identifier.ty, ← same]
      · rw [if_neg same, replaces.elsewhere identifier.name same identifier.ty]
  | const identifier =>
      rfl
  | bind binder bound body inductionHypothesis =>
      rw [captures_bind_iff, not_and, not_or, not_and] at safe
      by_cases occurs : bound.name ≠ name ∧ body.hasFree name = true
      · obtain ⟨different, inBody⟩ := occurs
        obtain ⟨safeBelow, notCapturing⟩ := safe different
        have outside : replacement.hasFree bound.name = false := by
          simpa using notCapturing inBody
        have bodies := inductionHypothesis safeBelow (replaces.enter different outside)
        rw [substitute, if_neg different]
        simp only [namelessIn, Nameless.substitute, bodies]
      · -- The name is not free here, so that only the other names have to be carried over.
        have absent : (Term.bind binder bound body).hasFree name = false := by
          simpa [hasFree] using occurs
        rw [substitute_eq_self absent]
        refine (substitute_namelessIn fun outside free =>
          replaces.elsewhere outside ?_).symm
        intro same
        simp [same, absent] at free
  | tuple items inductionHypothesis =>
      rw [captures_tuple_iff] at safe
      simp only [substitute, substituteAll_eq_map, namelessIn, namelessAllIn_eq_map,
        Nameless.substitute, Nameless.substituteAll_eq_map, List.map_map,
        Nameless.tuple.injEq]
      exact List.map_congr_left fun item member =>
        inductionHypothesis item member
          (fun captured => safe ⟨item, member, captured⟩) replaces
  | neg operand inductionHypothesis =>
      rw [captures_neg_iff] at safe
      simp only [substitute, namelessIn, Nameless.substitute,
        inductionHypothesis safe replaces]
  | app _ _ firstHypothesis secondHypothesis
  | connect _ _ _ firstHypothesis secondHypothesis
  | equal _ _ firstHypothesis secondHypothesis
  | relate _ _ _ firstHypothesis secondHypothesis =>
      simp only [captures_app_iff, captures_connect_iff, captures_equal_iff,
        captures_relate_iff, not_or] at safe
      simp only [substitute, namelessIn, Nameless.substitute,
        firstHypothesis safe.1 replaces, secondHypothesis safe.2 replaces]

/-- Where nothing is captured, a contraction fills in the binder of the nameless term. -/
theorem namelessIn_contraction
    {redex : Redex}
    (safe : ¬Captures redex.bound.name redex.argument redex.body)
    (scope : List String) :
    (substitute redex.bound.name redex.argument redex.body).namelessIn scope =
      (redex.body.namelessIn (redex.bound.name :: scope)).instantiate
        (redex.argument.namelessIn scope) := by
  have replaces :
      Replaces (extend (redex.argument.namelessIn scope) .bound)
        (redex.bound.name :: scope) scope redex.bound.name redex.argument := by
    refine ⟨fun ty => ?_, fun outside notName ty => ?_⟩
    · rw [namelessIn_var_cons_self]
      rfl
    · rw [namelessIn_var_cons_of_ne notName.symm]
      exact Nameless.instantiate_shift _ _
  exact namelessIn_substitute safe replaces

/-- A contraction that captures nothing is one of the nameless term. -/
theorem reduces_namelessIn_toTerm
    {redex : Redex}
    (safe : ¬Captures redex.bound.name redex.argument redex.body)
    (scope : List String) :
    Reduces (redex.toTerm.namelessIn scope)
      ((substitute redex.bound.name redex.argument redex.body).namelessIn scope) := by
  rw [namelessIn_contraction safe]
  exact .contract redex.bound.ty _ _

/-- A reduction in the hole of a node is one in the whole. -/
theorem reduces_namelessIn_frame
    (frame : Frame)
    {before after : Term}
    (reduces : ∀ inner, Reduces (before.namelessIn inner) (after.namelessIn inner))
    (scope : List String) :
    Reduces ((frame.fill before).namelessIn scope)
      ((frame.fill after).namelessIn scope) := by
  cases frame with
  | bind binder bound =>
      exact .bind binder bound.ty (reduces _)
  | function argument =>
      exact .function _ (reduces scope)
  | argument function =>
      exact .argument _ (reduces scope)
  | item earlier later =>
      simp only [Frame.fill, namelessIn, namelessAllIn_eq_map, List.map_append, List.map_cons]
      exact .item _ _ (reduces scope)
  | neg =>
      exact .neg (reduces scope)
  | connectLeft connective right =>
      exact .connectLeft connective _ (reduces scope)
  | connectRight connective left =>
      exact .connectRight connective _ (reduces scope)
  | equalLeft right =>
      exact .equalLeft _ (reduces scope)
  | equalRight left =>
      exact .equalRight _ (reduces scope)
  | relateLeft relation right =>
      exact .relateLeft relation _ (reduces scope)
  | relateRight relation left =>
      exact .relateRight relation _ (reduces scope)

/-- A reduction at any place is one of the whole. -/
theorem reduces_namelessIn_fill
    (context : Context)
    {before after : Term}
    (reduces : ∀ inner, Reduces (before.namelessIn inner) (after.namelessIn inner))
    (scope : List String) :
    Reduces ((context.fill before).namelessIn scope)
      ((context.fill after).namelessIn scope) := by
  induction context generalizing scope with
  | nil =>
      exact reduces scope
  | cons frame rest inductionHypothesis =>
      exact reduces_namelessIn_frame frame inductionHypothesis scope

end TypedLambda.Term
