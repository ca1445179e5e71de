import TypedLambda.Proofs.Ty.ReaderSteps

namespace TypedLambda.Ty

/-!
# Where reading a type fails

The reader refuses a text at the first character that no type goes on with.
Whatever the state, some characters lead on to a whole type, so what has been
read up to an error could still have become a type. The character at the
position of the error could not have followed, whatever came behind it.
-/

namespace Reader

/-- All that is still open behind a whole factor can be closed. -/
theorem exists_reads_closing (factors : List Ty) (outer : List Level) :
    ∃ more last, Reads ⟨.continuation, factors, outer⟩ more ⟨.continuation, last, []⟩ := by
  induction outer generalizing factors with
  | nil =>
      exact ⟨[], factors, .nil _⟩
  | cons level outer inductionHypothesis =>
      obtain ⟨before, opening⟩ := level
      cases opening with
      | domain =>
          -- A comma is not needed in front of the range.
          obtain ⟨more, last, reads⟩ :=
            inductionHypothesis (before ++ [.fn (product factors) truth])
          exact ⟨'t' :: '>' :: more, last,
            .cons (.rangeAtOnce (.atom rfl)) (.cons .closeFunction reads)⟩
      | range domain =>
          obtain ⟨more, last, reads⟩ :=
            inductionHypothesis (before ++ [.fn domain (product factors)])
          exact ⟨'>' :: more, last, .cons .closeFunction reads⟩
      | group =>
          obtain ⟨more, last, reads⟩ := inductionHypothesis (before ++ [product factors])
          exact ⟨')' :: more, last, .cons .closeGroup reads⟩

/-- From every state some characters lead on to a whole type. -/
theorem exists_reads_whole (state : State) :
    ∃ more factors, Reads state more ⟨.continuation, factors, []⟩ := by
  obtain ⟨mode, factors, outer⟩ := state
  cases mode with
  | continuation =>
      exact exists_reads_closing factors outer
  | factor =>
      obtain ⟨more, last, reads⟩ := exists_reads_closing (factors ++ [truth]) outer
      exact ⟨'t' :: more, last, .cons (.factor (.atom rfl)) reads⟩
  | letter =>
      obtain ⟨more, last, reads⟩ := exists_reads_closing (factors ++ [.var 'a']) outer
      exact ⟨'a' :: more, last, .cons (.letter rfl) reads⟩

variable {state last : State} {front rest text : List Char} {position : Nat} {error : SyntaxError}

/-- Characters that lead to a state are read first, and the others from that state. -/
theorem run_append
    (reads : Reads state front last)
    (position : Nat)
    (rest : List Char) :
    run position state (front ++ rest) = run (position + front.length) last rest := by
  induction reads generalizing position with
  | nil =>
      rfl
  | cons step _ inductionHypothesis =>
      rw [List.cons_append, run, step_eq_ok_iff.mpr step]
      simp only [inductionHypothesis, List.length_cons]
      congr 1
      omega

/-- What has been read when an error is reported, and what could not be read behind it. -/
structure Refuses
    (state : State)
    (position : Nat)
    (front rest : List Char)
    (last : State)
    (error : SyntaxError) : Prop where
  reads : Reads state front last
  atPosition : error.position = position + front.length
  stuck :
    ∀ character ∈ rest.head?, ∃ expected, last.step character = .error expected

/-- An error comes up at the end of what can be read. -/
theorem exists_refuses
    (refused : run position state text = .error error) :
    ∃ front rest last,
      text = front ++ rest ∧ Refuses state position front rest last error := by
  induction text generalizing position state with
  | nil =>
      refine ⟨[], [], state, rfl, .nil state, ?_, by simp⟩
      simp only [run] at refused
      split at refused
      · cases refused
      · cases refused
        rfl
  | cons character text inductionHypothesis =>
      simp only [run] at refused
      split at refused
      · next next stepped =>
          obtain ⟨front, rest, last, rfl, reads, atPosition, stuck⟩ :=
            inductionHypothesis refused
          refine ⟨character :: front, rest, last, rfl,
            .cons (step_eq_ok_iff.mp stepped) reads, ?_, stuck⟩
          rw [atPosition, List.length_cons]
          omega
      · next expected stepped =>
          cases refused
          refine ⟨[], character :: text, state, rfl, .nil state, rfl, ?_⟩
          simpa using ⟨expected, stepped⟩

end Reader

/--
An error in the text of a type points at the first wrong character, or at the
end of the text: what stands before it begins some text that is read as a type,
but together with the character it points at it begins no such text.
-/
theorem read_eq_error_position
    {text : String}
    {error : SyntaxError}
    (refused : read text = .error error) :
    error.position ≤ text.length ∧
      (∃ accepted ty,
        read accepted = .ok ty ∧ text.toList.take error.position <+: accepted.toList) ∧
      (error.position < text.length →
        ∀ (other : String) (ty : Ty),
          text.toList.take (error.position + 1) <+: other.toList → read other ≠ .ok ty) := by
  obtain ⟨front, rest, last, isText, reads, atPosition, stuck⟩ := Reader.exists_refuses refused
  rw [Nat.zero_add] at atPosition
  rw [← String.length_toList, isText, atPosition, List.length_append, List.take_left]
  refine ⟨Nat.le_add_right _ _, ?_, ?_⟩
  · obtain ⟨more, factors, whole⟩ := Reader.exists_reads_whole last
    refine ⟨String.ofList (front ++ more), Reader.product factors, ?_, more, ?_⟩
    · rw [read_eq_ok_iff, String.toList_ofList]
      exact ⟨factors, reads.append whole, rfl⟩
    · rw [String.toList_ofList]
  · intro before other ty begins result
    cases rest with
    | nil =>
        simp at before
    | cons character rest =>
        obtain ⟨more, isOther⟩ := begins
        have another : other.toList = front ++ character :: more := by
          rw [← isOther, List.take_length_add_append, List.append_assoc]
          rfl
        obtain ⟨expected, refusedCharacter⟩ := stuck character rfl
        rw [read, another, Reader.run_append reads, Reader.run, refusedCharacter] at result
        cases result

/-- In the text "<e, T>" the capital is wrong, after a comma and a blank. -/
theorem read_eq_error_position_capital :
    read "<e, T>" = .error (.unexpected .type (.character 'T') 4) ∧
      (∃ accepted ty, read accepted = .ok ty ∧ ['<', 'e', ',', ' '] <+: accepted.toList) ∧
      ∀ (other : String) (ty : Ty),
        ['<', 'e', ',', ' ', 'T'] <+: other.toList → read other ≠ .ok ty := by
  have refused : read "<e, T>" = .error (.unexpected .type (.character 'T') 4) := by
    rfl
  obtain ⟨_, viable, wrong⟩ := read_eq_error_position refused
  exact ⟨refused, viable, wrong (by decide)⟩

end TypedLambda.Ty
