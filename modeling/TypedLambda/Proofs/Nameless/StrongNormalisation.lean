import TypedLambda.Proofs.Nameless.Reduction

namespace TypedLambda.Term.Nameless

/-!
# Strong normalisation

A term is strongly normalising if no sequence of reductions goes on for ever,
whatever is reduced first. Nodes that make no redex have this property as soon
as their parts have it, since every reduction takes place in one of the parts.
For applications it is not enough: what an abstraction is applied to may make
new redexes in its body.
-/

/-- The term cannot be reduced for ever. -/
def StronglyNormalising (term : Nameless) : Prop :=
  Acc (fun after before => Reduces before after) term

namespace StronglyNormalising

/-- A term that cannot be reduced for ever cannot be after a reduction either. -/
theorem reduces
    {before after : Nameless}
    (normalising : StronglyNormalising before)
    (reduces : Reduces before after) :
    StronglyNormalising after :=
  Acc.inv normalising reduces

/-- If a term with something put into it cannot be reduced for ever, the term cannot be. -/
theorem of_map
    {change : Nameless → Nameless}
    (keeps :
      ∀ {before after}, Reduces before after →
        Reduces (change before) (change after))
    {term : Nameless}
    (normalising : StronglyNormalising (change term)) :
    StronglyNormalising term := by
  generalize isChanged : change term = changed at normalising
  induction normalising generalizing term with
  | intro changed _ inductionHypothesis =>
      subst isChanged
      exact Acc.intro term fun after reduces =>
        inductionHypothesis _ (keeps reduces) rfl

/-- A node with one part cannot be reduced for ever if the part cannot be. -/
theorem of_part
    {node : Nameless → Nameless}
    (inPart :
      ∀ {part after}, Reduces (node part) after →
        ∃ inner, Reduces part inner ∧ after = node inner)
    {part : Nameless}
    (normalising : StronglyNormalising part) :
    StronglyNormalising (node part) := by
  induction normalising with
  | intro part _ inductionHypothesis =>
      refine Acc.intro (node part) fun after reduces => ?_
      obtain ⟨inner, reducesPart, rfl⟩ := inPart reduces
      exact inductionHypothesis inner reducesPart

/-- A node with two parts cannot be reduced for ever if neither part can be. -/
theorem of_parts
    (node : α → β → Nameless)
    {First : α → α → Prop}
    {Second : β → β → Prop}
    (inParts :
      ∀ {first second after}, Reduces (node first second) after →
        (∃ inner, First inner first ∧ after = node inner second) ∨
          ∃ inner, Second inner second ∧ after = node first inner)
    {first : α}
    {second : β}
    (firstEnds : Acc First first)
    (secondEnds : Acc Second second) :
    StronglyNormalising (node first second) := by
  -- The second part may be reduced from its beginning again whenever the first one has been.
  induction firstEnds generalizing second with
  | intro first _ firstHypothesis =>
      induction secondEnds with
      | intro second secondInner secondHypothesis =>
          refine Acc.intro (node first second) fun after reduces => ?_
          rcases inParts reduces with
            ⟨inner, inFirst, rfl⟩ | ⟨inner, inSecond, rfl⟩
          · exact firstHypothesis inner inFirst (Acc.intro second secondInner)
          · exact secondHypothesis inner inSecond

theorem bind
    {binder : Binder}
    {ty : Ty}
    {body : Nameless}
    (normalising : StronglyNormalising body) :
    StronglyNormalising (.bind binder ty body) :=
  normalising.of_part reduces_bind_iff.mp

theorem neg
    {operand : Nameless}
    (normalising : StronglyNormalising operand) :
    StronglyNormalising (.neg operand) :=
  normalising.of_part reduces_neg_iff.mp

theorem connect
    {connective : Connective}
    {left right : Nameless}
    (ofLeft : StronglyNormalising left)
    (ofRight : StronglyNormalising right) :
    StronglyNormalising (.connect connective left right) :=
  of_parts (.connect connective) reduces_connect_iff.mp ofLeft ofRight

theorem equal
    {left right : Nameless}
    (ofLeft : StronglyNormalising left)
    (ofRight : StronglyNormalising right) :
    StronglyNormalising (.equal left right) :=
  of_parts .equal reduces_equal_iff.mp ofLeft ofRight

theorem relate
    {relation : SetRelation}
    {left right : Nameless}
    (ofLeft : StronglyNormalising left)
    (ofRight : StronglyNormalising right) :
    StronglyNormalising (.relate relation left right) :=
  of_parts (.relate relation) reduces_relate_iff.mp ofLeft ofRight

/-- A tuple is a node with two parts, its first item and the tuple of the others. -/
theorem tuple
    {items : List Nameless}
    (ofItems : ∀ item ∈ items, StronglyNormalising item) :
    StronglyNormalising (.tuple items) := by
  induction items with
  | nil =>
      exact Acc.intro _ fun after reduces => (not_reduces_tuple_nil reduces).elim
  | cons head tail inductionHypothesis =>
      obtain ⟨ofHead, ofTail⟩ := List.forall_mem_cons.mp ofItems
      have tailEnds :
          Acc (InvImage (fun after before => Reduces before after) Nameless.tuple) tail :=
        InvImage.accessible Nameless.tuple (inductionHypothesis ofTail)
      exact of_parts (fun first rest => .tuple (first :: rest))
        reduces_tuple_cons_iff.mp ofHead tailEnds

end StronglyNormalising

end TypedLambda.Term.Nameless
