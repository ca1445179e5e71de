import TypedLambda.Proofs.Text.Closed
import TypedLambda.Ty.Printer

namespace TypedLambda.Ty

/-!
# Printed types can be told apart

In a type that is built from letters, with at least two factors in every
product, no two types look alike: the printed form gives the type back, also
in front of other characters, as long as these do not go on with another
factor. Brackets match in it and commas stand inside of them.
-/

mutual

/-- The type is built from letters, and its products have two factors or more. -/
def isLettered : Ty → Bool
  | .atom letter => Text.isLetter letter
  | .var letter => Text.isLetter letter
  | .fn domain range => domain.isLettered && range.isLettered
  | .prod factors => 2 ≤ factors.length && areLettered factors

/-- Every type in a list is built from letters. -/
def areLettered : List Ty → Bool
  | [] => true
  | ty :: rest => ty.isLettered && areLettered rest

end

section Lettered

attribute [local simp] isLettered areLettered

@[simp] theorem areLettered_iff {types : List Ty} :
    areLettered types = true ↔ ∀ ty ∈ types, ty.isLettered = true := by
  induction types with
  | nil =>
      simp
  | cons ty rest inductionHypothesis =>
      simp [inductionHypothesis]

end Lettered

/-- The characters of a type as a factor of a product. -/
def factorChars (ty : Ty) : List Char :=
  enclose ty (ty.chars .logical)

/-- The factors that a type is printed as; a type that is no product is one factor. -/
def printedFactors : Ty → List Ty
  | .prod factors => factors
  | ty => [ty]

/-- Factors with their signs in front. -/
def signedFactors (factors : List Ty) : List Char :=
  factors.flatMap fun factor => '×' :: factorChars factor

@[simp] theorem signedFactors_cons (factor : Ty) (factors : List Ty) :
    signedFactors (factor :: factors) =
      '×' :: (factor.factorChars ++ signedFactors factors) :=
  rfl

/-- The type does not go on. -/
def NoFactor (rest : List Char) : Prop :=
  rest.head? ≠ some '×'

section Factors

attribute [local simp] chars furtherFactors

theorem furtherFactors_logical (factors : List Ty) :
    furtherFactors .logical factors = signedFactors factors := by
  induction factors with
  | nil =>
      rfl
  | cons factor rest inductionHypothesis =>
      have sign : times .logical = ['×'] := rfl
      simp [inductionHypothesis, factorChars, sign]

/-- A type of two factors or more, or of one that is no product, in print. -/
theorem cross_chars
    {ty : Ty}
    (lettered : ty.isLettered = true) :
    '×' :: ty.chars .logical = signedFactors ty.printedFactors := by
  cases ty with
  | prod factors =>
      cases factors with
      | nil =>
          simp [isLettered] at lettered
      | cons factor rest =>
          simp [furtherFactors_logical, printedFactors, factorChars]
  | _ =>
      simp [signedFactors, printedFactors, factorChars, enclose]

end Factors

/-- Types of the same factors are the same. -/
theorem printedFactors_inj
    {left right : Ty}
    (leftLettered : left.isLettered = true)
    (rightLettered : right.isLettered = true)
    (same : left.printedFactors = right.printedFactors) :
    left = right := by
  cases left <;> cases right <;>
    grind [printedFactors, isLettered]

/-- As a factor, the type can be told apart from all others, whatever comes next. -/
def IsSeparable (factor : Ty) : Prop :=
  ∀ ⦃other : Ty⦄ ⦃rest otherRest : List Char⦄,
    other.isLettered = true →
      factor.factorChars ++ rest = other.factorChars ++ otherRest →
        factor = other ∧ rest = otherRest

/-- Factors that can be told apart can be told apart in a row. -/
theorem signedFactors_append_inj
    {factors others : List Ty}
    {rest otherRest : List Char}
    (separable : ∀ factor ∈ factors, factor.IsSeparable)
    (lettered : ∀ other ∈ others, other.isLettered = true)
    (noFactor : NoFactor rest)
    (noOtherFactor : NoFactor otherRest)
    (same : signedFactors factors ++ rest = signedFactors others ++ otherRest) :
    factors = others ∧ rest = otherRest := by
  induction factors generalizing others with
  | nil =>
      cases others with
      | nil =>
          exact ⟨rfl, same⟩
      | cons other others =>
          have starts : rest = signedFactors (other :: others) ++ otherRest := same
          exact absurd (by rw [starts]; rfl) noFactor
  | cons factor factors inductionHypothesis =>
      cases others with
      | nil =>
          have starts : otherRest = signedFactors (factor :: factors) ++ rest :=
            same.symm
          exact absurd (by rw [starts]; rfl) noOtherFactor
      | cons other others =>
          obtain ⟨factorSeparable, separable⟩ := List.forall_mem_cons.mp separable
          obtain ⟨otherLettered, lettered⟩ := List.forall_mem_cons.mp lettered
          simp only [signedFactors_cons, List.cons_append, List.append_assoc,
            List.cons.injEq, true_and] at same
          obtain ⟨first, same⟩ := factorSeparable otherLettered same
          obtain ⟨further, same⟩ := inductionHypothesis separable lettered same
          exact ⟨by rw [first, further], same⟩

/-- The factors of a type that is built from letters are. -/
theorem isLettered_of_mem_printedFactors
    {ty factor : Ty}
    (lettered : ty.isLettered = true)
    (member : factor ∈ ty.printedFactors) :
    factor.isLettered = true := by
  cases ty <;> simp_all [printedFactors, isLettered]

/-- A type of factors that can be told apart ends where no factor follows. -/
theorem chars_append_inj_of_isSeparable
    {ty other : Ty}
    {rest otherRest : List Char}
    (separable : ∀ factor ∈ ty.printedFactors, factor.IsSeparable)
    (lettered : ty.isLettered = true)
    (otherLettered : other.isLettered = true)
    (noFactor : NoFactor rest)
    (noOtherFactor : NoFactor otherRest)
    (same : ty.chars .logical ++ rest = other.chars .logical ++ otherRest) :
    ty = other ∧ rest = otherRest := by
  have signed := congrArg (List.cons '×') same
  rw [← List.cons_append, ← List.cons_append, cross_chars lettered,
    cross_chars otherLettered] at signed
  obtain ⟨factors, rests⟩ :=
    signedFactors_append_inj separable
      (fun _ member => isLettered_of_mem_printedFactors otherLettered member)
      noFactor noOtherFactor signed
  exact ⟨printedFactors_inj lettered otherLettered factors, rests⟩

/-- No sign that a factor starts with is a letter. -/
theorem isLetter_eq_false_of_mem
    {character : Char}
    (sign : character ∈ ['<', '(', '\x27']) :
    Text.isLetter character = false := by
  have noLetters : ['<', '(', '\x27'].all (!Text.isLetter ·) = true := by
    decide +kernel
  simpa using List.all_eq_true.mp noLetters character sign

/-- A function type can be told apart if the factors of its two types can. -/
theorem isSeparable_fn
    {domain range : Ty}
    (lettered : (fn domain range).isLettered = true)
    (inDomain : ∀ factor ∈ domain.printedFactors, factor.IsSeparable)
    (inRange : ∀ factor ∈ range.printedFactors, factor.IsSeparable) :
    (fn domain range).IsSeparable := by
  intro other rest otherRest otherLettered same
  cases other with
  | fn otherDomain otherRange =>
      simp only [isLettered, Bool.and_eq_true] at lettered otherLettered
      simp only [factorChars, enclose, chars, List.cons_append,
        List.append_assoc, List.cons.injEq, true_and] at same
      obtain ⟨domains, same⟩ :=
        chars_append_inj_of_isSeparable inDomain lettered.1 otherLettered.1
          (by simp [NoFactor]) (by simp [NoFactor]) same
      simp only [List.cons.injEq, true_and] at same
      obtain ⟨ranges, same⟩ :=
        chars_append_inj_of_isSeparable inRange lettered.2 otherLettered.2
          (by simp [NoFactor]) (by simp [NoFactor]) same
      simp only [List.nil_append, List.cons.injEq, true_and] at same
      exact ⟨by rw [domains, ranges], same⟩
  | atom letter =>
      have notLetter := isLetter_eq_false_of_mem (by simp : '<' ∈ ['<', '(', '\x27'])
      grind [factorChars, enclose, chars, isLettered]
  | _ =>
      simp [factorChars, enclose, chars] at same

/-- A product can be told apart if its factors can. -/
theorem isSeparable_prod
    {factors : List Ty}
    (lettered : (prod factors).isLettered = true)
    (inFactors : ∀ factor ∈ (prod factors).printedFactors, factor.IsSeparable) :
    (prod factors).IsSeparable := by
  intro other rest otherRest otherLettered same
  cases other with
  | prod others =>
      simp only [factorChars, enclose, List.cons_append, List.append_assoc,
        List.cons.injEq, true_and] at same
      obtain ⟨products, same⟩ :=
        chars_append_inj_of_isSeparable inFactors lettered otherLettered
          (by simp [NoFactor]) (by simp [NoFactor]) same
      simp only [List.nil_append, List.cons.injEq, true_and] at same
      exact ⟨products, same⟩
  | atom letter =>
      have notLetter := isLetter_eq_false_of_mem (by simp : '(' ∈ ['<', '(', '\x27'])
      grind [factorChars, enclose, chars, isLettered]
  | _ =>
      simp [factorChars, enclose, chars] at same

/-- Every factor that is built from letters can be told apart, and its own factors can. -/
theorem isSeparable_of_isLettered
    {ty : Ty}
    (lettered : ty.isLettered = true) :
    ty.IsSeparable ∧ ∀ factor ∈ ty.printedFactors, factor.IsSeparable := by
  have notLetter (character : Char) (sign : character ∈ ['<', '(', '\x27']) :
      Text.isLetter character = false :=
    isLetter_eq_false_of_mem sign
  induction ty with
  | atom letter =>
      have separable : (atom letter).IsSeparable := by
        intro other rest otherRest otherLettered same
        cases other <;>
          grind [factorChars, enclose, chars, isLettered]
      simpa [printedFactors] using separable
  | var letter =>
      have separable : (var letter).IsSeparable := by
        intro other rest otherRest otherLettered same
        cases other <;>
          grind [factorChars, enclose, chars, isLettered]
      simpa [printedFactors] using separable
  | fn domain range domainHypothesis rangeHypothesis =>
      have parts := lettered
      simp only [isLettered, Bool.and_eq_true] at parts
      have separable :=
        isSeparable_fn lettered (domainHypothesis parts.1).2
          (rangeHypothesis parts.2).2
      simpa [printedFactors] using separable
  | prod factors inductionHypothesis =>
      have inFactors :
          ∀ factor ∈ (prod factors).printedFactors, factor.IsSeparable := by
        intro factor member
        have factorLettered :=
          isLettered_of_mem_printedFactors lettered member
        exact (inductionHypothesis factor member factorLettered).1
      exact ⟨isSeparable_prod lettered inFactors, inFactors⟩

/-- Where no factor follows, a printed type gives the type back. -/
theorem chars_append_inj
    {ty other : Ty}
    {rest otherRest : List Char}
    (lettered : ty.isLettered = true)
    (otherLettered : other.isLettered = true)
    (noFactor : NoFactor rest)
    (noOtherFactor : NoFactor otherRest)
    (same : ty.chars .logical ++ rest = other.chars .logical ++ otherRest) :
    ty = other ∧ rest = otherRest :=
  chars_append_inj_of_isSeparable (isSeparable_of_isLettered lettered).2
    lettered otherLettered noFactor noOtherFactor same

/-- Brackets match in factors with their signs if they match in each factor. -/
theorem closed_signedFactors
    {factors : List Ty}
    (closed : ∀ factor ∈ factors, Text.Closed factor.factorChars) :
    Text.Closed (signedFactors factors) := by
  induction factors with
  | nil =>
      exact Text.closed_nil
  | cons factor rest inductionHypothesis =>
      obtain ⟨first, others⟩ := List.forall_mem_cons.mp closed
      have sign : Text.Closed ['×'] := rfl
      exact (sign.append first).append (inductionHypothesis others)

/-- Brackets match in a printed type, and commas stand between them. -/
theorem closed_chars
    {ty : Ty}
    (lettered : ty.isLettered = true) :
    Text.Closed (ty.chars .logical) := by
  induction ty with
  | atom letter =>
      apply Text.closed_of_forall_isInner
      intro character member
      rw [chars, List.mem_singleton] at member
      exact member ▸ Text.isInner_of_isLetter lettered
  | var letter =>
      apply Text.closed_of_forall_isInner
      intro character member
      rw [chars, List.mem_cons, List.mem_singleton] at member
      rcases member with rfl | rfl
      · decide
      · exact Text.isInner_of_isLetter lettered
  | fn domain range domainHypothesis rangeHypothesis =>
      simp only [isLettered, Bool.and_eq_true] at lettered
      have domainClosed := (domainHypothesis lettered.1).openAfter_eq 1
      have rangeClosed := (rangeHypothesis lettered.2).openAfter_eq 1
      simp [Text.Closed, chars, Text.advance, domainClosed, rangeClosed]
  | prod factors inductionHypothesis =>
      have factorsClosed :
          ∀ factor ∈ factors, Text.Closed factor.factorChars := by
        intro factor member
        have closed :=
          inductionHypothesis factor member
            (isLettered_of_mem_printedFactors lettered member)
        cases factor with
        | prod _ =>
            exact .enclose (closed.openAfter_eq 1)
        | _ =>
            exact closed
      cases factors with
      | nil =>
          exact Text.closed_nil
      | cons factor rest =>
          obtain ⟨first, others⟩ := List.forall_mem_cons.mp factorsClosed
          rw [chars, furtherFactors_logical]
          exact first.append (closed_signedFactors others)

end TypedLambda.Ty
