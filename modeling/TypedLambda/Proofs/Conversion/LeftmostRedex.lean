import TypedLambda.Proofs.Conversion.Place

namespace TypedLambda

/-!
# The leftmost redex

What it means for a redex to come first in a term is said here of its place
alone: no node on the way down to it is a redex, and nothing to the left of
the way contains one. The search finds such a place, and it finds nothing
only in a term without redexes.
-/

namespace Term

/-- No part of the term is a redex. -/
def RedexFree (term : Term) : Prop :=
  ∀ (context : Context) (redex : Redex), term ≠ context.fill redex.toTerm

end Term

namespace Frame

/-- The terms to the left of the hole. -/
def before : Frame → List Term
  | .bind _ _ => []
  | .function _ => []
  | .argument operator => [operator]
  | .item before _ => before
  | .neg => []
  | .connectLeft _ _ => []
  | .connectRight _ left => [left]
  | .equalLeft _ => []
  | .equalRight left => [left]
  | .relateLeft _ _ => []
  | .relateRight _ left => [left]

end Frame

namespace PlacedRedex

/-- The redex comes first, from the root downwards and from left to right. -/
inductive IsLeftmost : PlacedRedex → Prop where
  /-- A redex at the root comes before all others. -/
  | here (redex : Redex) : IsLeftmost ⟨[], redex⟩
  /-- Below a node that is no redex, what is to the left of the place has none. -/
  | under
      (frame : Frame)
      (place : PlacedRedex)
      (below : IsLeftmost place)
      (notHere : ∀ redex : Redex, frame.fill place.whole ≠ redex.toTerm)
      (notBefore : ∀ term ∈ frame.before, term.RedexFree) :
      IsLeftmost (place.under frame)

/-- A place that comes first below a node comes first from the node on. -/
theorem isLeftmost_under
    (frame : Frame)
    {place : PlacedRedex}
    {term : Term}
    (found : place.whole = term ∧ place.IsLeftmost)
    (notHere : ∀ redex : Redex, frame.fill term ≠ redex.toTerm)
    (notBefore : ∀ earlier ∈ frame.before, earlier.RedexFree) :
    (place.under frame).whole = frame.fill term ∧
      (place.under frame).IsLeftmost := by
  obtain ⟨rfl, leftmost⟩ := found
  exact ⟨rfl, .under frame place leftmost notHere notBefore⟩

end PlacedRedex

namespace Term

/-- A term has no redex if it is none and no term directly below its root has one. -/
theorem redexFree_of_children
    {term : Term}
    (notHere : ∀ redex : Redex, term ≠ redex.toTerm)
    (below : ∀ child ∈ term.children, child.RedexFree) :
    term.RedexFree := by
  intro context redex same
  cases context with
  | nil =>
      exact notHere redex same
  | cons frame rest =>
      have member : Context.fill rest redex.toTerm ∈ term.children :=
        mem_children_iff.mpr ⟨frame, same.symm⟩
      exact below _ member rest redex rfl

/-- Every redex is read off its two parts. -/
theorem redex?_eq_some_of_toTerm_eq
    {function argument : Term}
    {redex : Redex}
    (same : .app function argument = redex.toTerm) :
    redex? function argument = some redex := by
  simp only [Redex.toTerm, Redex.function, Term.app.injEq] at same
  obtain ⟨rfl, rfl⟩ := same
  rfl

/-- Where the search among items finds nothing it finds nothing in any of them. -/
theorem leftmostRedex?_eq_none_of_mem
    {before items : List Term}
    (missing : leftmostRedexAmong? before items = none)
    {item : Term}
    (member : item ∈ items) :
    item.leftmostRedex? = none := by
  induction items generalizing before with
  | nil =>
      simp at member
  | cons head tail inductionHypothesis =>
      simp only [leftmostRedexAmong?, Option.or_eq_none_iff,
        Option.map_eq_none_iff] at missing
      rcases List.mem_cons.mp member with rfl | inTail
      · exact missing.1
      · exact inductionHypothesis missing.2 inTail

/-- Where the search finds nothing there is no redex. -/
theorem redexFree_of_leftmostRedex?_eq_none
    {term : Term}
    (missing : term.leftmostRedex? = none) :
    term.RedexFree := by
  induction term with
  | app function argument functionHypothesis argumentHypothesis =>
      simp only [leftmostRedex?] at missing
      cases readOff : redex? function argument with
      | some redex =>
          simp [readOff] at missing
      | none =>
          simp only [readOff, Option.or_eq_none_iff,
            Option.map_eq_none_iff] at missing
          refine redexFree_of_children (fun redex same => ?_) ?_
          · rw [redex?_eq_some_of_toTerm_eq same] at readOff
            cases readOff
          · simp [children, functionHypothesis missing.1,
              argumentHypothesis missing.2]
  | tuple items inductionHypothesis =>
      apply redexFree_of_children (fun redex => by simp [Redex.toTerm])
      intro item member
      exact inductionHypothesis item member
        (leftmostRedex?_eq_none_of_mem missing member)
  | _ =>
      refine redexFree_of_children (fun redex => by simp [Redex.toTerm]) ?_
      simp_all [children, leftmostRedex?]

/-- The search among items finds a place that comes first in the tuple. -/
theorem isLeftmost_of_leftmostRedexAmong?
    {before items : List Term}
    {place : PlacedRedex}
    (found : leftmostRedexAmong? before items = some place)
    (notBefore : ∀ term ∈ before, term.RedexFree)
    (inItem :
      ∀ item ∈ items, ∀ inner : PlacedRedex,
        item.leftmostRedex? = some inner →
          inner.whole = item ∧ inner.IsLeftmost) :
    place.whole = .tuple (before ++ items) ∧ place.IsLeftmost := by
  induction items generalizing before with
  | nil =>
      cases found
  | cons head tail inductionHypothesis =>
      simp only [leftmostRedexAmong?, Option.or_eq_some_iff] at found
      rcases found with inHead | ⟨notInHead, inTail⟩
      · obtain ⟨inner, isFound, rfl⟩ := Option.map_eq_some_iff.mp inHead
        exact PlacedRedex.isLeftmost_under (.item before tail)
          (inItem head (by simp) inner isFound)
          (fun redex => by simp [Frame.fill, Redex.toTerm]) notBefore
      · have headFree : head.RedexFree :=
          redexFree_of_leftmostRedex?_eq_none
            (Option.map_eq_none_iff.mp notInHead)
        have stillNotBefore :
            ∀ term ∈ before ++ [head], term.RedexFree := by
          intro term member
          rcases List.mem_append.mp member with earlier | isHead
          · exact notBefore term earlier
          · exact List.mem_singleton.mp isHead ▸ headFree
        have first :=
          inductionHypothesis inTail stillNotBefore
            fun item member => inItem item (by simp [member])
        simpa using first

/-- The search in two parts, one after the other, finds a place that comes first. -/
theorem isLeftmost_of_either
    {firstFrame secondFrame : Frame}
    {first second : Term}
    {place : PlacedRedex}
    (found :
      (first.leftmostRedex?.map (·.under firstFrame)).or
        (second.leftmostRedex?.map (·.under secondFrame)) = some place)
    (inFirst :
      ∀ {inner : PlacedRedex}, first.leftmostRedex? = some inner →
        inner.whole = first ∧ inner.IsLeftmost)
    (inSecond :
      ∀ {inner : PlacedRedex}, second.leftmostRedex? = some inner →
        inner.whole = second ∧ inner.IsLeftmost)
    (sameTerm : secondFrame.fill second = firstFrame.fill first)
    (notHere : ∀ redex : Redex, firstFrame.fill first ≠ redex.toTerm)
    (nothingBefore : firstFrame.before = [])
    (firstBefore : secondFrame.before = [first]) :
    place.whole = firstFrame.fill first ∧ place.IsLeftmost := by
  rw [Option.or_eq_some_iff] at found
  rcases found with foundInFirst | ⟨notInFirst, foundInSecond⟩
  · obtain ⟨inner, isFound, rfl⟩ := Option.map_eq_some_iff.mp foundInFirst
    apply PlacedRedex.isLeftmost_under firstFrame (inFirst isFound) notHere
    simp [nothingBefore]
  · obtain ⟨inner, isFound, rfl⟩ := Option.map_eq_some_iff.mp foundInSecond
    rw [← sameTerm] at notHere ⊢
    apply PlacedRedex.isLeftmost_under secondFrame (inSecond isFound) notHere
    intro earlier member
    rw [firstBefore, List.mem_singleton] at member
    rw [member]
    exact redexFree_of_leftmostRedex?_eq_none
      (Option.map_eq_none_iff.mp notInFirst)

/-- The search finds a place that comes first in the term. -/
theorem isLeftmost_of_leftmostRedex?
    {term : Term}
    {place : PlacedRedex}
    (found : term.leftmostRedex? = some place) :
    place.whole = term ∧ place.IsLeftmost := by
  induction term generalizing place with
  | var identifier =>
      cases found
  | const identifier =>
      cases found
  | bind binder bound body inductionHypothesis =>
      obtain ⟨inner, isFound, rfl⟩ := Option.map_eq_some_iff.mp found
      exact PlacedRedex.isLeftmost_under (.bind binder bound)
        (inductionHypothesis isFound)
        (fun redex => by simp [Frame.fill, Redex.toTerm])
        (by simp [Frame.before])
  | app function argument functionHypothesis argumentHypothesis =>
      simp only [leftmostRedex?] at found
      cases readOff : redex? function argument with
      | some redex =>
          simp only [readOff, Option.some.injEq] at found
          subst found
          exact ⟨toTerm_of_redex? readOff, .here redex⟩
      | none =>
          have notHere (redex : Redex) :
              Term.app function argument ≠ redex.toTerm := by
            intro same
            rw [redex?_eq_some_of_toTerm_eq same] at readOff
            cases readOff
          simp only [readOff] at found
          exact isLeftmost_of_either found functionHypothesis
            argumentHypothesis rfl notHere rfl rfl
  | tuple items inductionHypothesis =>
      exact isLeftmost_of_leftmostRedexAmong? found (by simp)
        fun item member inner isFound => inductionHypothesis item member isFound
  | neg operand inductionHypothesis =>
      obtain ⟨inner, isFound, rfl⟩ := Option.map_eq_some_iff.mp found
      exact PlacedRedex.isLeftmost_under .neg
        (inductionHypothesis isFound)
        (fun redex => by simp [Frame.fill, Redex.toTerm])
        (by simp [Frame.before])
  | connect _ _ _ leftHypothesis rightHypothesis
  | equal _ _ leftHypothesis rightHypothesis
  | relate _ _ _ leftHypothesis rightHypothesis =>
      exact isLeftmost_of_either found leftHypothesis rightHypothesis rfl
        (fun redex => by simp [Frame.fill, Redex.toTerm]) rfl rfl

/-- The search passes over items without redexes. -/
theorem leftmostRedexAmong?_append
    {earlier : List Term}
    (free : ∀ term ∈ earlier, term.leftmostRedex? = none)
    (before items : List Term) :
    leftmostRedexAmong? before (earlier ++ items) =
      leftmostRedexAmong? (before ++ earlier) items := by
  induction earlier generalizing before with
  | nil =>
      simp
  | cons head tail inductionHypothesis =>
      have headFree := free head (by simp)
      have rest :=
        inductionHypothesis (fun term member => free term (by simp [member]))
          (before ++ [head])
      simp [leftmostRedexAmong?, headFree, rest]

/-- The search finds nothing exactly in the terms without redexes. -/
theorem leftmostRedex?_eq_none_iff {term : Term} :
    term.leftmostRedex? = none ↔ term.RedexFree := by
  constructor
  · exact redexFree_of_leftmostRedex?_eq_none
  · intro free
    cases found : term.leftmostRedex? with
    | none =>
        rfl
    | some place =>
        have whole := (isLeftmost_of_leftmostRedex? found).1
        exact (free place.context place.redex whole.symm).elim

/-- A term has one place that comes first, and the search finds it. -/
theorem leftmostRedex?_eq_some_iff
    {term : Term}
    {place : PlacedRedex} :
    term.leftmostRedex? = some place ↔
      place.whole = term ∧ place.IsLeftmost := by
  constructor
  · exact isLeftmost_of_leftmostRedex?
  · rintro ⟨rfl, leftmost⟩
    induction leftmost with
    | here redex =>
        rfl
    | under frame place _ notHere notBefore inductionHypothesis =>
        have missing (term : Term) (member : term ∈ frame.before) :
            term.leftmostRedex? = none :=
          leftmostRedex?_eq_none_iff.mpr (notBefore term member)
        have notRedex
            {function argument : Term}
            (shape : frame.fill place.whole = .app function argument) :
            redex? function argument = none := by
          cases readOff : redex? function argument with
          | none =>
              rfl
          | some redex =>
              have same := toTerm_of_redex? readOff
              exact (notHere redex (shape.trans same.symm)).elim
        rw [PlacedRedex.whole_under]
        cases frame with
        | function operand =>
            simp [Frame.fill, leftmostRedex?, notRedex rfl, inductionHypothesis]
        | argument operator =>
            have operatorFree := missing operator (List.mem_singleton.mpr rfl)
            simp [Frame.fill, leftmostRedex?, notRedex rfl, operatorFree,
              inductionHypothesis]
        | item before after =>
            have passed := leftmostRedexAmong?_append missing [] (place.whole :: after)
            simp only [Frame.before, List.nil_append] at passed
            simp [Frame.fill, leftmostRedex?, passed, leftmostRedexAmong?,
              inductionHypothesis]
        | connectRight _ left
        | equalRight left
        | relateRight _ left =>
            have leftFree := missing left (List.mem_singleton.mpr rfl)
            simp [Frame.fill, leftmostRedex?, leftFree, inductionHypothesis]
        | _ =>
            simp [Frame.fill, leftmostRedex?, inductionHypothesis]

end Term

end TypedLambda
