import TypedLambda.Proofs.Alpha.Decision
import TypedLambda.Proofs.Reordering.Keys

namespace TypedLambda.Term

/-!
# Deciding whether terms are reordered

Reordering keeps the key of the canonical form, since it exchanges the keys of
operands where these are sorted, and nothing else. In the other direction,
plain terms with the same key are built from parts with the same keys, and so
they are reordered. Canonical forms of terms with ordinary names are plain, so
that `reorderEquivalent` decides `Reordered` for such terms.
-/

namespace KeyParts

/-- The same key, or chains with the same keys of operands in any order. -/
inductive Similar : KeyParts → KeyParts → Prop where
  | whole (key : List Char) : Similar (.whole key) (.whole key)
  | chain (connective : Connective) {operands others : List (List Char)} :
      operands.Perm others →
      Similar (.chain connective operands) (.chain connective others)

namespace Similar

theorem refl (parts : KeyParts) : Similar parts parts := by
  cases parts with
  | whole key =>
      exact .whole key
  | chain connective operands =>
      exact .chain connective (.refl _)

theorem symm
    {left right : KeyParts}
    (similar : Similar left right) :
    Similar right left := by
  cases similar with
  | whole key =>
      exact .whole key
  | chain connective perm =>
      exact .chain connective perm.symm

theorem trans
    {left middle right : KeyParts}
    (first : Similar left middle)
    (second : Similar middle right) :
    Similar left right := by
  cases first with
  | whole key =>
      exact second
  | chain connective perm =>
      cases second with
      | chain _ further =>
          exact .chain connective (perm.trans further)

/-- The keys are the same, since operands are sorted. -/
theorem key_eq
    {left right : KeyParts}
    (similar : Similar left right) :
    left.key = right.key := by
  cases similar with
  | whole key =>
      rfl
  | chain connective perm =>
      rw [KeyParts.key, KeyParts.key, sortKeys, sortKeys,
        Sorting.sort_textPrecedes_eq_iff.mpr perm]

/-- The same operands are contributed to a larger chain. -/
theorem operandsOf_perm
    {left right : KeyParts}
    (similar : Similar left right)
    (connective : Connective) :
    (left.operandsOf connective).Perm (right.operandsOf connective) := by
  have keys := similar.key_eq
  cases similar with
  | whole key =>
      exact .refl _
  | chain inner perm =>
      simp only [KeyParts.operandsOf, keys]
      split
      · exact perm
      · exact .refl _

end Similar

end KeyParts

/-- Two keys are sorted alike in either order. -/
theorem sortKeys_pair_comm (first second : List Char) :
    sortKeys [first, second] = sortKeys [second, first] :=
  Sorting.sort_textPrecedes_eq_iff.mpr (.swap second first [])

/-- A term is exchanged for a similar one without effect on what surrounds it. -/
theorem similar_fill
    (frame : Frame)
    {left right : Term}
    (scope : List String)
    (similar :
      ∀ inner,
        (left.canonicalIn inner).keyParts.Similar
          (right.canonicalIn inner).keyParts) :
    ((frame.fill left).canonicalIn scope).keyParts.Similar
      ((frame.fill right).canonicalIn scope).keyParts := by
  have keys (inner : List String) := (similar inner).key_eq
  have operands (connective : Connective) :=
    (similar scope).operandsOf_perm connective
  cases frame with
  | item before after =>
      simp only [Frame.fill, canonicalIn, canonicalAllIn_eq_map, List.map_append,
        List.map_cons, keyParts, orderKeys_eq_map, orderKey, keys]
      exact .refl _
  | connectLeft connective right =>
      cases connective with
      | conjunction =>
          exact .chain .conjunction ((operands .conjunction).append_right _)
      | disjunction =>
          exact .chain .disjunction ((operands .disjunction).append_right _)
      | _ =>
          simp only [Frame.fill, canonicalIn, keyParts, keys]
          exact .refl _
  | connectRight connective left =>
      cases connective with
      | conjunction =>
          exact .chain .conjunction ((operands .conjunction).append_left _)
      | disjunction =>
          exact .chain .disjunction ((operands .disjunction).append_left _)
      | _ =>
          simp only [Frame.fill, canonicalIn, keyParts, keys]
          exact .refl _
  | _ =>
      simp only [Frame.fill, canonicalIn, keyParts, keys]
      exact .refl _

/-- Reordering a term keeps its key below any binders, up to the order of operands. -/
theorem Reordered.similar
    {left right : Term}
    (reordered : Reordered left right)
    (scope : List String) :
    (left.canonicalIn scope).keyParts.Similar
      (right.canonicalIn scope).keyParts := by
  induction reordered generalizing scope with
  | alpha equivalent =>
      rw [equivalent.canonicalIn_eq scope]
      exact .refl _
  | symm _ inductionHypothesis =>
      exact (inductionHypothesis scope).symm
  | trans _ _ firstHypothesis secondHypothesis =>
      exact (firstHypothesis scope).trans (secondHypothesis scope)
  | frame frame _ inductionHypothesis =>
      exact similar_fill frame scope inductionHypothesis
  | commute connective left right commutes =>
      cases connective with
      | conjunction =>
          exact .chain .conjunction List.perm_append_comm
      | disjunction =>
          exact .chain .disjunction List.perm_append_comm
      | conditional =>
          exact absurd rfl commutes
      | biconditional =>
          simp only [canonicalIn, keyParts]
          rw [sortKeys_pair_comm]
          exact .refl _
  | commuteEqual left right =>
      simp only [canonicalIn, keyParts]
      rw [sortKeys_pair_comm]
      exact .refl _
  | associate connective left middle right free =>
      simp only [canonicalIn, keyParts_connect free, KeyParts.operandsOf,
        ↓reduceIte, List.append_assoc]
      exact .refl _

/-- Reordered terms are accepted. -/
theorem Reordered.reorderEquivalent_eq_true
    {left right : Term}
    (reordered : Reordered left right) :
    left.reorderEquivalent right = true := by
  rw [reorderEquivalent, decide_eq_true_iff]
  exact (reordered.similar []).key_eq

/-- If the images of two lists are the same up to order, one list can be put in that order. -/
theorem exists_perm_map_eq
    {f : α → β}
    {lefts rights : List α}
    (perm : (lefts.map f).Perm (rights.map f)) :
    ∃ arranged : List α, arranged.Perm rights ∧ lefts.map f = arranged.map f := by
  have images : List.Forall₂ (fun image element => image = f element)
      (rights.map f) rights := by
    rw [List.forall₂_map_left_iff]
    exact List.forall₂_refl rights
  obtain ⟨arranged, imagesArranged, arrangedPerm⟩ :=
    List.perm_comp_forall₂ perm images
  refine ⟨arranged, arrangedPerm, ?_⟩
  rw [← List.forall₂_eq_eq_eq, List.forall₂_map_right_iff]
  exact imagesArranged

/-- Two pairs are sorted alike only if they have the same members. -/
theorem sortKeys_pair_inj
    {first second third fourth : List Char}
    (same : sortKeys [first, second] = sortKeys [third, fourth]) :
    (first = third ∧ second = fourth) ∨ (first = fourth ∧ second = third) := by
  have perm := Sorting.sort_textPrecedes_eq_iff.mp same
  have member : first ∈ [third, fourth] := perm.subset List.mem_cons_self
  rw [List.mem_cons, List.mem_singleton] at member
  rcases member with rfl | rfl
  · exact .inl ⟨rfl, List.singleton_perm_singleton.mp perm.cons_inv⟩
  · have rest := (perm.trans (.swap _ _ [])).cons_inv
    exact .inr ⟨rfl, List.singleton_perm_singleton.mp rest⟩

/-- Chains whose operands have the same keys up to order are reordered. -/
theorem reordered_connect_of_perm
    {connective : Connective}
    (free : connective.JoinsFreely)
    {left right otherLeft otherRight : Term}
    (perm :
      ((left.operands connective ++ right.operands connective).map orderKey).Perm
        ((otherLeft.operands connective ++ otherRight.operands connective).map
          orderKey))
    (related :
      ∀ operand ∈ left.operands connective ++ right.operands connective,
        ∀ other ∈ otherLeft.operands connective ++ otherRight.operands connective,
          operand.orderKey = other.orderKey → Reordered operand other) :
    Reordered (.connect connective left right)
      (.connect connective otherLeft otherRight) := by
  have chain (left right : Term) :
      Reordered (.connect connective left right)
        (joined connective
          (left.operands connective ++ right.operands connective)) := by
    have operandsOfChain :
        (connect connective left right).operands connective =
          left.operands connective ++ right.operands connective :=
      if_pos rfl
    exact operandsOfChain ▸ reordered_joined_operands free _
  obtain ⟨arranged, arrangedPerm, keys⟩ := exists_perm_map_eq perm
  have pairwise :
      List.Forall₂ Reordered
        (left.operands connective ++ right.operands connective) arranged :=
    forall₂_of_map_eq keys fun operand inLeft other inArranged =>
      related operand inLeft other (arrangedPerm.mem_iff.mp inArranged)
  exact (chain left right).trans
    ((reordered_joined_of_forall₂ pairwise).trans
      ((reordered_joined_of_perm free arrangedPerm).trans
        (chain otherLeft otherRight).symm))

section Pairs

variable
  {first second third fourth : Term}
  (build : Term → Term → Term)
  (exchange :
    ∀ {left otherLeft right otherRight : Term},
      Reordered left otherLeft → Reordered right otherRight →
        Reordered (build left right) (build otherLeft otherRight))
  (related :
    ∀ part ∈ [first, second], ∀ other ∈ [third, fourth],
      part.orderKey = other.orderKey → Reordered part other)

include exchange related

/-- Two parts in a fixed order have to agree one by one. -/
theorem reordered_of_keys_eq
    (keys :
      [first.orderKey, second.orderKey] = [third.orderKey, fourth.orderKey]) :
    Reordered (build first second) (build third fourth) := by
  simp only [List.cons.injEq, and_true] at keys
  exact exchange
    (related first (by simp) third (by simp) keys.1)
    (related second (by simp) fourth (by simp) keys.2)

/-- Two parts in any order have to agree in one of the two ways. -/
theorem reordered_of_sortKeys_eq
    (commute : ∀ left right : Term, Reordered (build left right) (build right left))
    (keys :
      sortKeys [first.orderKey, second.orderKey] =
        sortKeys [third.orderKey, fourth.orderKey]) :
    Reordered (build first second) (build third fourth) := by
  rcases sortKeys_pair_inj keys with ⟨firsts, seconds⟩ | ⟨firsts, seconds⟩
  · exact exchange
      (related first (by simp) third (by simp) firsts)
      (related second (by simp) fourth (by simp) seconds)
  · have exchanged :=
      exchange
        (related second (by simp) third (by simp) seconds)
        (related first (by simp) fourth (by simp) firsts)
    exact (commute first second).trans exchanged

end Pairs

/--
Plain terms with the same key are reordered.

The induction is on the size, since the parts of the key of a chain are the
operands of the whole chain and not the two sides of its root.
-/
theorem reordered_of_orderKey_eq
    {left right : Term}
    (leftPlain : left.IsPlain)
    (rightPlain : right.IsPlain)
    (same : left.orderKey = right.orderKey) :
    Reordered left right := by
  induction sizeOfLeft : left.size using Nat.strongRecOn
    generalizing left right with
  | ind weight inductionHypothesis =>
      have related :
          ∀ part ∈ left.keyedParts, ∀ other ∈ right.keyedParts,
            part.orderKey = other.orderKey → Reordered part other :=
        fun part inLeft other inRight sameKey =>
          inductionHypothesis part.size
            (sizeOfLeft ▸ (mem_keyedParts_bounds inLeft).1)
            (leftPlain.of_mem_keyedParts inLeft)
            (rightPlain.of_mem_keyedParts inRight) sameKey rfl
      have congruence := Reordered.isCongruence
      obtain ⟨forms, identifiers, keys⟩ := orderKey_inj leftPlain rightPlain same
      cases sameForm_of_form_eq forms with
      | var identifier other =>
          cases identifiers
          exact .refl _
      | const identifier other =>
          cases identifiers
          exact .refl _
      | bind binder bound otherBound body otherBody =>
          cases identifiers
          have bodies : body.orderKey = otherBody.orderKey :=
            (List.cons.inj keys).1
          exact .frame (.bind binder bound)
            (related body (by simp [keyedParts, children]) otherBody
              (by simp [keyedParts, children]) bodies)
      | app =>
          exact reordered_of_keys_eq .app congruence.app related keys
      | tuple =>
          exact congruence.tuple [] (forall₂_of_map_eq keys related)
      | neg operand other =>
          have operands : operand.orderKey = other.orderKey :=
            (List.cons.inj keys).1
          exact .frame .neg
            (related operand (by simp [keyedParts, children]) other
              (by simp [keyedParts, children]) operands)
      | connect connective =>
          cases connective with
          | conjunction =>
              exact reordered_connect_of_perm (.inl rfl)
                (Sorting.sort_textPrecedes_eq_iff.mp keys) related
          | disjunction =>
              exact reordered_connect_of_perm (.inr rfl)
                (Sorting.sort_textPrecedes_eq_iff.mp keys) related
          | conditional =>
              exact reordered_of_keys_eq (.connect .conditional)
                (congruence.connect .conditional) related keys
          | biconditional =>
              exact reordered_of_sortKeys_eq (.connect .biconditional)
                (congruence.connect .biconditional) related
                (fun left right => .commute _ left right (by simp)) keys
      | equal =>
          exact reordered_of_sortKeys_eq .equal congruence.equal related
            .commuteEqual keys
      | relate relation =>
          exact reordered_of_keys_eq (.relate relation)
            (congruence.relate relation) related keys

/-- Every name and every type in a term is ordinary. -/
def IsOrdinary (term : Term) : Prop :=
  ∀ identifier ∈ term.identifiers, identifier.IsOrdinary

instance (term : Term) : Decidable term.IsOrdinary :=
  inferInstanceAs (Decidable (∀ identifier ∈ term.identifiers, _))

namespace IsOrdinary

variable {term : Term} (ordinary : term.IsOrdinary)

include ordinary

/-- The canonical form of a term with ordinary names is plain. -/
theorem isPlain_canonical : term.canonical.IsPlain := by
  intro identifier member
  obtain ⟨original, mentioned, types, names⟩ :=
    exists_of_mem_identifiers_canonicalIn member
  have plain := (ordinary original mentioned).isPlain
  refine ⟨fun character inName => ?_, types ▸ plain.ty⟩
  rcases names with sameName | ⟨depth, ofDepth⟩
  · exact plain.name character (sameName ▸ inName)
  · rcases mem_toList_canonicalName (ofDepth ▸ inName) with rfl | digit
    · decide
    · exact Text.isInner_of_isNameCharacter
        (Text.isNameCharacter_of_isDigit digit)

/-- Ordinary names do not begin like the canonical ones. -/
theorem unmarked : term.Unmarked := by
  refine unmarked_of_identifiers fun identifier mentioned marked => ?_
  have ofName :=
    List.all_eq_true.mp (ordinary identifier mentioned).1 '#' (List.mem_of_mem_head? marked)
  exact absurd ofName (by decide +kernel)

/-- Reordering includes the change to canonical names. -/
theorem reordered_canonical : Reordered term term.canonical :=
  .alpha (alphaEq_canonical fun _ free => ordinary.unmarked.ne_canonicalName free)

end IsOrdinary

/--
On terms with names of letters, numerals, underscores and primes, and types
built from letters, the comparison of keys decides whether one term is the
other one reordered.
-/
theorem reorderEquivalent_iff_reordered
    {left right : Term}
    (leftOrdinary : left.IsOrdinary)
    (rightOrdinary : right.IsOrdinary) :
    left.reorderEquivalent right = true ↔ Reordered left right := by
  constructor
  · intro accepted
    rw [reorderEquivalent, decide_eq_true_iff] at accepted
    have canonical :=
      reordered_of_orderKey_eq leftOrdinary.isPlain_canonical
        rightOrdinary.isPlain_canonical accepted
    exact leftOrdinary.reordered_canonical.trans
      (canonical.trans rightOrdinary.reordered_canonical.symm)
  · exact Reordered.reorderEquivalent_eq_true

/-- The term λx.∃y.(P(x) ∧ R(x,y)) ∧ x = y. -/
def nestedConjunction : Term :=
  .bind .lambda ⟨"x", .entity⟩ (.bind .existential ⟨"y", .entity⟩
    (.connect .conjunction
      (.connect .conjunction
        (.app (.const ⟨"P", .predicate .entity⟩) (.var ⟨"x", .entity⟩))
        (.app (.const ⟨"R", .predicate (.prod [.entity, .entity])⟩)
          (.tuple [.var ⟨"x", .entity⟩, .var ⟨"y", .entity⟩])))
      (.equal (.var ⟨"x", .entity⟩) (.var ⟨"y", .entity⟩))))

/-- The same with exchanged names, conjuncts and sides: λy.∃x.x = y ∧ (R(y,x) ∧ P(y)). -/
def exchangedConjunction : Term :=
  .bind .lambda ⟨"y", .entity⟩ (.bind .existential ⟨"x", .entity⟩
    (.connect .conjunction
      (.equal (.var ⟨"x", .entity⟩) (.var ⟨"y", .entity⟩))
      (.connect .conjunction
        (.app (.const ⟨"R", .predicate (.prod [.entity, .entity])⟩)
          (.tuple [.var ⟨"y", .entity⟩, .var ⟨"x", .entity⟩]))
        (.app (.const ⟨"P", .predicate .entity⟩) (.var ⟨"y", .entity⟩)))))

theorem reordered_nestedConjunction_exchangedConjunction :
    nestedConjunction.IsOrdinary ∧
      exchangedConjunction.IsOrdinary ∧
      Reordered nestedConjunction exchangedConjunction := by
  have ordinary : nestedConjunction.IsOrdinary := by
    decide +kernel
  have exchangedOrdinary : exchangedConjunction.IsOrdinary := by
    decide +kernel
  have accepted :
      nestedConjunction.reorderEquivalent exchangedConjunction = true := by
    decide +kernel
  exact ⟨ordinary, exchangedOrdinary,
    (reorderEquivalent_iff_reordered ordinary exchangedOrdinary).mp accepted⟩

end TypedLambda.Term
