namespace TypedLambda.Outcome

/-!
# Outcomes of computations that may fail

How a sequence of steps that may each fail comes to succeed, and what a first
successful step leaves to do. These lemmas take a computation apart without
unfolding it.
-/

variable {ε α β : Type}

/-- A sequence succeeds if its first step does and what follows from that does. -/
theorem bind_eq_ok_iff
    {first : Except ε α}
    {rest : α → Except ε β}
    {result : β} :
    (first >>= rest) = .ok result ↔
      ∃ value, first = .ok value ∧ rest value = .ok result := by
  cases first with
  | error reason =>
      simp [bind, Except.bind]
  | ok value =>
      simp [bind, Except.bind]

/-- A sequence fails if its first step does, or what follows from it. -/
theorem bind_eq_error_iff
    {first : Except ε α}
    {rest : α → Except ε β}
    {reason : ε} :
    (first >>= rest) = .error reason ↔
      first = .error reason ∨ ∃ value, first = .ok value ∧ rest value = .error reason := by
  cases first with
  | error other =>
      simp [bind, Except.bind]
  | ok value =>
      simp [bind, Except.bind]

/-- After a first step that succeeds the rest remains. -/
@[simp] theorem ok_bind
    (value : α)
    (rest : α → Except ε β) :
    (Except.ok value >>= rest) = rest value :=
  rfl

/-- A value that is returned is the result. -/
@[simp] theorem pure_eq_ok_iff
    {value result : α} :
    (pure value : Except ε α) = .ok result ↔ value = result := by
  simp [pure, Except.pure]

/-- A result that is changed afterwards comes from a success. -/
@[simp] theorem map_eq_ok_iff
    {first : Except ε α}
    {change : α → β}
    {result : β} :
    change <$> first = .ok result ↔
      ∃ value, first = .ok value ∧ change value = result := by
  cases first with
  | error reason =>
      simp [Functor.map, Except.map]
  | ok value =>
      simp [Functor.map, Except.map]

/-- What is made of the reasons for failure does not matter to success. -/
@[simp] theorem mapError_eq_ok_iff
    {δ : Type}
    {first : Except ε α}
    {change : ε → δ}
    {result : α} :
    first.mapError change = .ok result ↔ first = .ok result := by
  cases first with
  | error reason =>
      constructor <;> rintro ⟨⟩
  | ok value =>
      constructor <;> rintro ⟨⟩ <;> rfl

/-- A computation fails exactly if it does not succeed. -/
theorem exists_eq_error_iff {outcome : Except ε α} :
    (∃ reason, outcome = .error reason) ↔ ¬∃ value, outcome = .ok value := by
  cases outcome <;> simp

end TypedLambda.Outcome
