import Mathlib.Data.List.Basic
import TypedLambda.Text.Letter

namespace TypedLambda.Text

/-!
# Closed texts

A text is closed if every bracket in it has a partner and every comma stands
between brackets. Parentheses and angle brackets count alike. What comes
behind a closed text cannot be mistaken for a part of it, provided that it
starts with a comma or a closing bracket, and so a list of closed texts with
commas between them can be taken apart again.
-/

/-- The number of open brackets after a character, unless it closes or divides nothing. -/
def advance (opened : Nat) (character : Char) : Option Nat :=
  if character = '(' ∨ character = '<' then
    some (opened + 1)
  else if character = ')' ∨ character = '>' then
    if opened = 0 then none else some (opened - 1)
  else if character = ',' then
    if opened = 0 then none else some opened
  else
    some opened

/-- The number of open brackets after a text. -/
def openAfter (opened : Nat) (text : List Char) : Option Nat :=
  text.foldlM advance opened

/-- Brackets match, and no comma stands outside of them. -/
def Closed (text : List Char) : Prop :=
  openAfter 0 text = some 0

/-- Neither a bracket nor a comma. -/
def IsInner (character : Char) : Prop :=
  character ∉ ['(', '<', ')', '>', ',']

instance (character : Char) : Decidable (IsInner character) :=
  inferInstanceAs (Decidable (character ∉ _))

/-- Whatever comes next, if anything does, is a comma or a closing bracket. -/
def Ends (text : List Char) : Prop :=
  ∀ character ∈ text.head?, character ∈ [')', '>', ',']

@[simp] theorem openAfter_nil (opened : Nat) :
    openAfter opened [] = some opened :=
  rfl

@[simp] theorem openAfter_cons
    (opened : Nat)
    (character : Char)
    (rest : List Char) :
    openAfter opened (character :: rest) =
      (advance opened character).bind (openAfter · rest) :=
  rfl

@[simp] theorem openAfter_append
    (opened : Nat)
    (left right : List Char) :
    openAfter opened (left ++ right) =
      (openAfter opened left).bind (openAfter · right) :=
  List.foldlM_append

/-- Where no bracket is open, nothing can be closed or divided. -/
theorem advance_zero_eq_none
    {character : Char}
    (stop : character ∈ [')', '>', ',']) :
    advance 0 character = none := by
  simp only [List.mem_cons, List.not_mem_nil, or_false] at stop
  rcases stop with rfl | rfl | rfl <;> rfl

/-- A character does the same below more open brackets. -/
theorem advance_succ
    {opened remaining : Nat}
    {character : Char}
    (advanced : advance opened character = some remaining) :
    advance (opened + 1) character = some (remaining + 1) := by
  unfold advance at advanced ⊢
  grind

/-- A text does the same below more open brackets. -/
theorem openAfter_succ
    {opened remaining : Nat}
    {text : List Char}
    (after : openAfter opened text = some remaining) :
    openAfter (opened + 1) text = some (remaining + 1) := by
  induction text generalizing opened with
  | nil =>
      simpa using after
  | cons character rest inductionHypothesis =>
      simp only [openAfter_cons, Option.bind_eq_some_iff] at after ⊢
      obtain ⟨next, advanced, after⟩ := after
      exact ⟨next + 1, advance_succ advanced, inductionHypothesis after⟩

/-- A closed text leaves the open brackets as they are. -/
theorem Closed.openAfter_eq
    {text : List Char}
    (closed : Closed text)
    (opened : Nat) :
    openAfter opened text = some opened := by
  induction opened with
  | zero =>
      exact closed
  | succ outer inductionHypothesis =>
      exact openAfter_succ inductionHypothesis

theorem closed_nil : Closed [] :=
  rfl

theorem Closed.append
    {left right : List Char}
    (leftClosed : Closed left)
    (rightClosed : Closed right) :
    Closed (left ++ right) := by
  rw [Closed, openAfter_append, leftClosed, Option.bind_some]
  exact rightClosed

/-- A text without brackets and commas is closed. -/
theorem closed_of_forall_isInner
    {text : List Char}
    (inner : ∀ character ∈ text, IsInner character) :
    Closed text := by
  induction text with
  | nil =>
      exact closed_nil
  | cons character rest inductionHypothesis =>
      obtain ⟨first, others⟩ := List.forall_mem_cons.mp inner
      have stays : advance 0 character = some 0 := by
        simp only [IsInner, List.mem_cons, not_or] at first
        simp [advance, first]
      rw [Closed, openAfter_cons, stays, Option.bind_some]
      exact inductionHypothesis others

/-- Letters are neither brackets nor commas. -/
theorem isInner_of_isLetter
    {character : Char}
    (letter : isLetter character = true) :
    IsInner character :=
  notMem_of_isLetter letter (by decide +kernel)

/-- A text is closed by the brackets that it stands in. -/
theorem Closed.enclose
    {text : List Char}
    (inside : openAfter 1 text = some 1) :
    Closed ('(' :: text ++ [')']) := by
  simp [Closed, inside, advance]

/-- What follows a closed text tells where it ends. -/
theorem Closed.append_inj
    {left right leftRest rightRest : List Char}
    (leftClosed : Closed left)
    (rightClosed : Closed right)
    (leftEnds : Ends leftRest)
    (rightEnds : Ends rightRest)
    (same : left ++ leftRest = right ++ rightRest) :
    left = right ∧ leftRest = rightRest := by
  -- the longer text would go on with a character that no closed text goes on with
  have noMore
      {shorter more rest : List Char}
      (shorterClosed : Closed shorter)
      (longerClosed : Closed (shorter ++ more))
      (ends : Ends (more ++ rest)) :
      more = [] := by
    cases more with
    | nil =>
        rfl
    | cons character others =>
        have refused : advance 0 character = none :=
          advance_zero_eq_none (ends character (by simp))
        rw [Closed, openAfter_append, shorterClosed, Option.bind_some,
          openAfter_cons, refused] at longerClosed
        cases longerClosed
  rcases List.append_eq_append_iff.mp same with
    ⟨more, rfl, rfl⟩ | ⟨more, rfl, rfl⟩
  · obtain rfl := noMore leftClosed rightClosed leftEnds
    simp
  · obtain rfl := noMore rightClosed leftClosed rightEnds
    simp

/-- Behind the first text of a list, each of the others stands behind a comma. -/
theorem intercalate_comma_cons
    (text : List Char)
    (texts : List (List Char)) :
    [','].intercalate (text :: texts) = text ++ texts.flatMap (',' :: ·) := by
  induction texts generalizing text with
  | nil =>
      simp
  | cons second rest inductionHypothesis =>
      rw [List.intercalate_cons_cons, inductionHypothesis]
      simp

/-- Closed texts with commas between them fit between brackets. -/
theorem openAfter_intercalate
    {texts : List (List Char)}
    (closed : ∀ text ∈ texts, Closed text) :
    openAfter 1 ([','].intercalate texts) = some 1 := by
  have others
      {texts : List (List Char)}
      (closed : ∀ text ∈ texts, Closed text) :
      openAfter 1 (texts.flatMap (',' :: ·)) = some 1 := by
    induction texts with
    | nil =>
        rfl
    | cons text rest inductionHypothesis =>
        obtain ⟨first, others⟩ := List.forall_mem_cons.mp closed
        have divided : advance 1 ',' = some 1 := rfl
        simp only [List.flatMap_cons, List.cons_append, openAfter_cons,
          divided, Option.bind_some, openAfter_append, first.openAfter_eq,
          inductionHypothesis others]
  cases texts with
  | nil =>
      rfl
  | cons text rest =>
      obtain ⟨first, rest⟩ := List.forall_mem_cons.mp closed
      rw [intercalate_comma_cons, openAfter_append, first.openAfter_eq,
        Option.bind_some, others rest]

/-- Closed texts behind commas can be taken apart again. -/
theorem flatMap_comma_inj
    {lefts rights : List (List Char)}
    (leftsClosed : ∀ text ∈ lefts, Closed text)
    (rightsClosed : ∀ text ∈ rights, Closed text)
    (same : lefts.flatMap (',' :: ·) = rights.flatMap (',' :: ·)) :
    lefts = rights := by
  have ends (texts : List (List Char)) :
      Ends (texts.flatMap (',' :: ·)) := by
    cases texts <;> simp [Ends]
  induction lefts generalizing rights with
  | nil =>
      cases rights with
      | nil =>
          rfl
      | cons _ _ =>
          simp at same
  | cons left lefts inductionHypothesis =>
      cases rights with
      | nil =>
          simp at same
      | cons right rights =>
          obtain ⟨leftClosed, leftsClosed⟩ := List.forall_mem_cons.mp leftsClosed
          obtain ⟨rightClosed, rightsClosed⟩ := List.forall_mem_cons.mp rightsClosed
          simp only [List.flatMap_cons, List.cons_append, List.cons.injEq,
            true_and] at same
          obtain ⟨first, others⟩ :=
            leftClosed.append_inj rightClosed (ends _) (ends _) same
          rw [first, inductionHypothesis leftsClosed rightsClosed others]

/-- A list of closed texts can be read off from them with commas between. -/
theorem intercalate_comma_inj
    {lefts rights : List (List Char)}
    (leftsClosed : ∀ text ∈ lefts, Closed text ∧ text ≠ [])
    (rightsClosed : ∀ text ∈ rights, Closed text ∧ text ≠ [])
    (same : [','].intercalate lefts = [','].intercalate rights) :
    lefts = rights := by
  cases lefts with
  | nil =>
      cases rights with
      | nil =>
          rfl
      | cons right _ =>
          have nonempty : right ≠ [] := (rightsClosed right (by simp)).2
          simp only [List.intercalate_nil, intercalate_comma_cons,
            List.nil_eq_append_iff] at same
          exact absurd same.1 nonempty
  | cons left lefts =>
      cases rights with
      | nil =>
          have nonempty : left ≠ [] := (leftsClosed left (by simp)).2
          simp [intercalate_comma_cons, nonempty] at same
      | cons right rights =>
          -- a comma in front of both lists makes all texts stand alike
          apply flatMap_comma_inj
          · intro text member
            exact (leftsClosed text member).1
          · intro text member
            exact (rightsClosed text member).1
          · simp only [intercalate_comma_cons] at same
            simp only [List.flatMap_cons, List.cons_append, same]

end TypedLambda.Text
