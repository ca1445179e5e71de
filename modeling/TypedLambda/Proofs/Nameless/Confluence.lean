import Mathlib.Logic.Relation
import TypedLambda.Proofs.Nameless.Reduction

namespace TypedLambda.Term.Nameless

/-!
# Confluence

What is reduced first does not matter: two terms that come from the same one
can be reduced to the same term again. The proof goes by parallel reduction,
which contracts any of the redexes of a term at once. Contracting all of them
is the furthest that it gets in one go, and whatever has been contracted
already, the rest of this can still be done afterwards.
-/

open Relation (ReflTransGen)

/-- Any number of the redexes that a term has are contracted at once. -/
inductive Parallel : Nameless → Nameless → Prop where
  | bound (index : Nat) (ty : Ty) : Parallel (.bound index ty) (.bound index ty)
  | free (identifier : Identifier) : Parallel (.free identifier) (.free identifier)
  | const (identifier : Identifier) : Parallel (.const identifier) (.const identifier)
  /-- An application at the root is contracted, after its parts have been reduced. -/
  | contract (ty : Ty) {body after argument replacement : Nameless} :
      Parallel body after → Parallel argument replacement →
        Parallel (.app (.bind .lambda ty body) argument) (after.instantiate replacement)
  | bind (binder : Binder) (ty : Ty) {body after : Nameless} :
      Parallel body after → Parallel (.bind binder ty body) (.bind binder ty after)
  | app {function operator argument operand : Nameless} :
      Parallel function operator → Parallel argument operand →
        Parallel (.app function argument) (.app operator operand)
  | tupleNil : Parallel (.tuple []) (.tuple [])
  | tupleCons {item after : Nameless} {rest others : List Nameless} :
      Parallel item after → Parallel (.tuple rest) (.tuple others) →
        Parallel (.tuple (item :: rest)) (.tuple (after :: others))
  | neg {operand after : Nameless} : Parallel operand after → Parallel (.neg operand) (.neg after)
  | connect (connective : Connective) {left leftAfter right rightAfter : Nameless} :
      Parallel left leftAfter → Parallel right rightAfter →
        Parallel (.connect connective left right) (.connect connective leftAfter rightAfter)
  | equal {left leftAfter right rightAfter : Nameless} :
      Parallel left leftAfter → Parallel right rightAfter →
        Parallel (.equal left right) (.equal leftAfter rightAfter)
  | relate (relation : SetRelation) {left leftAfter right rightAfter : Nameless} :
      Parallel left leftAfter → Parallel right rightAfter →
        Parallel (.relate relation left right) (.relate relation leftAfter rightAfter)

namespace Parallel

/-- Nothing need be contracted. -/
theorem refl (term : Nameless) : Parallel term term := by
  induction term with
  | bound index ty =>
      exact .bound index ty
  | free identifier =>
      exact .free identifier
  | const identifier =>
      exact .const identifier
  | bind binder ty _ inductionHypothesis =>
      exact .bind binder ty inductionHypothesis
  | app _ _ functionHypothesis argumentHypothesis =>
      exact .app functionHypothesis argumentHypothesis
  | tuple items inductionHypothesis =>
      induction items with
      | nil =>
          exact .tupleNil
      | cons head tail tailHypothesis =>
          obtain ⟨first, later⟩ := List.forall_mem_cons.mp inductionHypothesis
          exact .tupleCons first (tailHypothesis later)
  | neg _ inductionHypothesis =>
      exact .neg inductionHypothesis
  | connect connective _ _ leftHypothesis rightHypothesis =>
      exact .connect connective leftHypothesis rightHypothesis
  | equal _ _ leftHypothesis rightHypothesis =>
      exact .equal leftHypothesis rightHypothesis
  | relate relation _ _ leftHypothesis rightHypothesis =>
      exact .relate relation leftHypothesis rightHypothesis

/-- An item of a tuple may be reduced by itself. -/
theorem item
    (earlier later : List Nameless)
    {item after : Nameless}
    (parallel : Parallel item after) :
    Parallel (.tuple (earlier ++ item :: later)) (.tuple (earlier ++ after :: later)) := by
  induction earlier with
  | nil =>
      exact .tupleCons parallel (.refl _)
  | cons head _ inductionHypothesis =>
      exact .tupleCons (.refl head) inductionHypothesis

/-- A single contraction is a parallel one. -/
theorem of_reduces
    {before after : Nameless}
    (reduces : Reduces before after) :
    Parallel before after := by
  induction reduces with
  | contract ty body argument =>
      exact .contract ty (.refl body) (.refl argument)
  | bind binder ty _ inductionHypothesis =>
      exact .bind binder ty inductionHypothesis
  | function argument _ inductionHypothesis =>
      exact .app inductionHypothesis (.refl argument)
  | argument function _ inductionHypothesis =>
      exact .app (.refl function) inductionHypothesis
  | item earlier later _ inductionHypothesis =>
      exact inductionHypothesis.item earlier later
  | neg _ inductionHypothesis =>
      exact .neg inductionHypothesis
  | connectLeft connective right _ inductionHypothesis =>
      exact .connect connective inductionHypothesis (.refl right)
  | connectRight connective left _ inductionHypothesis =>
      exact .connect connective (.refl left) inductionHypothesis
  | equalLeft right _ inductionHypothesis =>
      exact .equal inductionHypothesis (.refl right)
  | equalRight left _ inductionHypothesis =>
      exact .equal (.refl left) inductionHypothesis
  | relateLeft relation right _ inductionHypothesis =>
      exact .relate relation inductionHypothesis (.refl right)
  | relateRight relation left _ inductionHypothesis =>
      exact .relate relation (.refl left) inductionHypothesis

/--
Reducing a term and what is put into it goes together, provided that what is
put in below further binders is reduced there as well.
-/
theorem substitute_of_closed
    (Related : Images → Images → Prop)
    (pointwise :
      ∀ {images others}, Related images others →
        ∀ index ty, Parallel (images index ty) (others index ty))
    (closed :
      ∀ {images others}, Related images others → Related (under images) (under others))
    {before after : Nameless}
    (parallel : Parallel before after)
    {images others : Images}
    (related : Related images others) :
    Parallel (before.substitute images) (after.substitute others) := by
  induction parallel generalizing images others with
  | bound index ty =>
      exact pointwise related index ty
  | free identifier =>
      exact .free identifier
  | const identifier =>
      exact .const identifier
  | contract ty _ _ bodyHypothesis argumentHypothesis =>
      rw [substitute_instantiate]
      exact .contract ty (bodyHypothesis (closed related)) (argumentHypothesis related)
  | bind binder ty _ inductionHypothesis =>
      exact .bind binder ty (inductionHypothesis (closed related))
  | app _ _ functionHypothesis argumentHypothesis =>
      exact .app (functionHypothesis related) (argumentHypothesis related)
  | tupleNil =>
      exact .tupleNil
  | tupleCons _ _ itemHypothesis restHypothesis =>
      exact .tupleCons (itemHypothesis related) (restHypothesis related)
  | neg _ inductionHypothesis =>
      exact .neg (inductionHypothesis related)
  | connect connective _ _ leftHypothesis rightHypothesis =>
      exact .connect connective (leftHypothesis related) (rightHypothesis related)
  | equal _ _ leftHypothesis rightHypothesis =>
      exact .equal (leftHypothesis related) (rightHypothesis related)
  | relate relation _ _ leftHypothesis rightHypothesis =>
      exact .relate relation (leftHypothesis related) (rightHypothesis related)

/-- A parallel reduction is still possible below one more binder. -/
theorem shift
    {before after : Nameless}
    (parallel : Parallel before after) :
    Parallel before.shift after.shift := by
  rw [shift_eq_substitute, shift_eq_substitute]
  refine parallel.substitute_of_closed (· = ·) ?_ ?_ rfl
  · rintro images _ rfl index ty
    exact .refl _
  · rintro images _ rfl
    rfl

/-- A term and what is put in the place of open occurrences may be reduced together. -/
theorem substitute
    {before after : Nameless}
    (parallel : Parallel before after)
    {images others : Images}
    (pointwise : ∀ index ty, Parallel (images index ty) (others index ty)) :
    Parallel (before.substitute images) (after.substitute others) := by
  refine parallel.substitute_of_closed
    (fun images others => ∀ index ty, Parallel (images index ty) (others index ty))
    id ?_ pointwise
  intro images others related index ty
  cases index with
  | zero =>
      exact .bound 0 ty
  | succ outer =>
      exact (related outer ty).shift

/-- A body and what is filled in for its binder may be reduced together. -/
theorem instantiate
    {body after argument replacement : Nameless}
    (parallel : Parallel body after)
    (ofArgument : Parallel argument replacement) :
    Parallel (body.instantiate argument) (after.instantiate replacement) := by
  refine parallel.substitute fun index ty => ?_
  cases index with
  | zero =>
      exact ofArgument
  | succ outer =>
      exact .bound outer ty

/-- What an abstraction is reduced to is an abstraction of the reduced body. -/
theorem of_bind
    {binder : Binder}
    {ty : Ty}
    {body after : Nameless}
    (parallel : Parallel (.bind binder ty body) after) :
    ∃ inner, Parallel body inner ∧ after = .bind binder ty inner := by
  cases parallel with
  | bind _ _ inBody =>
      exact ⟨_, inBody, rfl⟩

end Parallel

mutual

/-- The term with every redex that it has contracted. -/
def develop : Nameless → Nameless
  | .bound index ty => .bound index ty
  | .free identifier => .free identifier
  | .const identifier => .const identifier
  | .bind binder ty body => .bind binder ty body.develop
  | .app (.bind .lambda _ body) argument => body.develop.instantiate argument.develop
  | .app function argument => .app function.develop argument.develop
  | .tuple items => .tuple (developAll items)
  | .neg operand => .neg operand.develop
  | .connect connective left right => .connect connective left.develop right.develop
  | .equal left right => .equal left.develop right.develop
  | .relate relation left right => .relate relation left.develop right.develop

/-- Every term of a list with every redex contracted. -/
def developAll : List Nameless → List Nameless
  | [] => []
  | term :: rest => term.develop :: developAll rest

end

/-- An application is contracted if it is one of an abstraction; otherwise only its parts are. -/
theorem develop_app_cases (function argument : Nameless) :
    (∃ ty body,
        function = .bind .lambda ty body ∧
          (app function argument).develop = body.develop.instantiate argument.develop) ∨
      (app function argument).develop = .app function.develop argument.develop := by
  cases function with
  | bind binder ty body =>
      cases binder with
      | lambda =>
          exact .inl ⟨ty, body, rfl, rfl⟩
      | _ =>
          exact .inr rfl
  | _ =>
      exact .inr rfl

/-- Whatever redexes have been contracted, the others can still be. -/
theorem Parallel.develop
    {before after : Nameless}
    (parallel : Parallel before after) :
    Parallel after before.develop := by
  induction parallel with
  | bound index ty =>
      exact .bound index ty
  | free identifier =>
      exact .free identifier
  | const identifier =>
      exact .const identifier
  | contract ty _ _ bodyHypothesis argumentHypothesis =>
      exact bodyHypothesis.instantiate argumentHypothesis
  | bind binder ty _ inductionHypothesis =>
      exact .bind binder ty inductionHypothesis
  | @app function _ argument _ inFunction _ functionHypothesis argumentHypothesis =>
      rcases develop_app_cases function argument with ⟨ty, body, rfl, developed⟩ | developed
      · obtain ⟨inner, _, rfl⟩ := inFunction.of_bind
        obtain ⟨_, inBody, same⟩ := functionHypothesis.of_bind
        rw [developed]
        cases same
        exact .contract ty inBody argumentHypothesis
      · rw [developed]
        exact .app functionHypothesis argumentHypothesis
  | tupleNil =>
      exact .tupleNil
  | tupleCons _ _ itemHypothesis restHypothesis =>
      exact .tupleCons itemHypothesis restHypothesis
  | neg _ inductionHypothesis =>
      exact .neg inductionHypothesis
  | connect connective _ _ leftHypothesis rightHypothesis =>
      exact .connect connective leftHypothesis rightHypothesis
  | equal _ _ leftHypothesis rightHypothesis =>
      exact .equal leftHypothesis rightHypothesis
  | relate relation _ _ leftHypothesis rightHypothesis =>
      exact .relate relation leftHypothesis rightHypothesis

/-- A reduction of a part, in any number of steps, is one of the whole. -/
theorem reduces_star_lift
    (node : Nameless → Nameless)
    (inNode : ∀ {part after}, Reduces part after → Reduces (node part) (node after))
    {part after : Nameless}
    (reduces : ReflTransGen Reduces part after) :
    ReflTransGen Reduces (node part) (node after) :=
  reduces.lift node fun _ _ => inNode

/-- Two parts are reduced one after the other. -/
theorem reduces_star_both
    (node : Nameless → Nameless → Nameless)
    (inFirst : ∀ {first after second}, Reduces first after →
      Reduces (node first second) (node after second))
    (inSecond : ∀ {first second after}, Reduces second after →
      Reduces (node first second) (node first after))
    {first firstAfter second secondAfter : Nameless}
    (firstReduces : ReflTransGen Reduces first firstAfter)
    (secondReduces : ReflTransGen Reduces second secondAfter) :
    ReflTransGen Reduces (node first second) (node firstAfter secondAfter) :=
  (reduces_star_lift (node · second) inFirst firstReduces).trans
    (reduces_star_lift (node firstAfter) inSecond secondReduces)

/-- The items of a tuple but the first are reduced. -/
theorem reduces_star_rest
    (item : Nameless)
    {rest others : List Nameless}
    (reduces : ReflTransGen Reduces (.tuple rest) (.tuple others)) :
    ReflTransGen Reduces (.tuple (item :: rest)) (.tuple (item :: others)) := by
  generalize isTuple : Nameless.tuple rest = before at reduces
  induction reduces using ReflTransGen.head_induction_on generalizing rest with
  | refl =>
      cases isTuple
      exact .refl
  | head first _ inductionHypothesis =>
      subst isTuple
      obtain ⟨between, rfl⟩ := exists_tuple_of_reduces first
      have step : Reduces (.tuple (item :: rest)) (.tuple (item :: between)) :=
        reduces_tuple_cons_iff.mpr (.inr ⟨between, first, rfl⟩)
      exact .head step (inductionHypothesis rfl)

/-- A parallel reduction is a number of single ones. -/
theorem Parallel.reduces_star
    {before after : Nameless}
    (parallel : Parallel before after) :
    ReflTransGen Reduces before after := by
  induction parallel with
  | bound | free | const | tupleNil =>
      exact .refl
  | contract ty _ _ bodyHypothesis argumentHypothesis =>
      have inParts :=
        reduces_star_both Nameless.app (.function _) (.argument _)
          (reduces_star_lift (Nameless.bind .lambda ty) (.bind .lambda ty) bodyHypothesis)
          argumentHypothesis
      exact inParts.tail (.contract ty _ _)
  | bind binder ty _ inductionHypothesis =>
      exact reduces_star_lift (Nameless.bind binder ty) (.bind binder ty) inductionHypothesis
  | app _ _ functionHypothesis argumentHypothesis =>
      exact reduces_star_both Nameless.app (.function _) (.argument _)
        functionHypothesis argumentHypothesis
  | @tupleCons _ _ rest _ _ _ itemHypothesis restHypothesis =>
      have inItem :=
        reduces_star_lift (fun item => Nameless.tuple (item :: rest)) (.item [] rest)
          itemHypothesis
      exact inItem.trans (reduces_star_rest _ restHypothesis)
  | neg _ inductionHypothesis =>
      exact reduces_star_lift Nameless.neg .neg inductionHypothesis
  | connect connective _ _ leftHypothesis rightHypothesis =>
      exact reduces_star_both (Nameless.connect connective) (.connectLeft connective _)
        (.connectRight connective _) leftHypothesis rightHypothesis
  | equal _ _ leftHypothesis rightHypothesis =>
      exact reduces_star_both Nameless.equal (.equalLeft _) (.equalRight _)
        leftHypothesis rightHypothesis
  | relate relation _ _ leftHypothesis rightHypothesis =>
      exact reduces_star_both (Nameless.relate relation) (.relateLeft relation _)
        (.relateRight relation _) leftHypothesis rightHypothesis

/-- What can be reached by parallel reductions can be reached by single ones, and conversely. -/
theorem parallel_star_iff {before after : Nameless} :
    ReflTransGen Parallel before after ↔ ReflTransGen Reduces before after := by
  constructor
  · intro reaches
    induction reaches with
    | refl =>
        exact .refl
    | tail _ parallel inductionHypothesis =>
        exact inductionHypothesis.trans parallel.reduces_star
  · exact ReflTransGen.mono (fun _ _ => Parallel.of_reduces) _ _

/-- Two terms that come from the same one can be reduced to the same term. -/
theorem exists_common_reduct
    {term left right : Nameless}
    (toLeft : ReflTransGen Reduces term left)
    (toRight : ReflTransGen Reduces term right) :
    ∃ common, ReflTransGen Reduces left common ∧ ReflTransGen Reduces right common := by
  rw [← parallel_star_iff] at toLeft toRight
  obtain ⟨common, fromLeft, fromRight⟩ :=
    Relation.church_rosser
      (fun term _ _ inLeft inRight =>
        ⟨term.develop, .single inLeft.develop, .single inRight.develop⟩)
      toLeft toRight
  exact ⟨common, parallel_star_iff.mp fromLeft, parallel_star_iff.mp fromRight⟩

/-- What cannot be reduced is all that it reaches. -/
theorem Normal.eq_of_reduces_star
    {term after : Nameless}
    (normal : term.Normal)
    (reduces : ReflTransGen Reduces term after) :
    after = term := by
  rcases reduces.cases_head with same | ⟨_, first, _⟩
  · exact same.symm
  · exact (normal _ first).elim

/-- A term can be reduced to one term at most that cannot be reduced further. -/
theorem eq_of_normal
    {term left right : Nameless}
    (toLeft : ReflTransGen Reduces term left)
    (toRight : ReflTransGen Reduces term right)
    (leftNormal : left.Normal)
    (rightNormal : right.Normal) :
    left = right := by
  obtain ⟨common, fromLeft, fromRight⟩ := exists_common_reduct toLeft toRight
  exact (leftNormal.eq_of_reduces_star fromLeft).symm.trans
    (rightNormal.eq_of_reduces_star fromRight)

end TypedLambda.Term.Nameless
