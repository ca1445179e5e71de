import TypedLambda.Conversion.Derivation

namespace TypedLambda.CommandLine

/-!
# The journal of a derivation

What a derivation does is told in lines: every renaming, every contraction and
every step taken. Renamings are of general interest, the rest only for a
trace.
-/

/-- How much of the journal a line is for. -/
inductive Detail where
  | debug
  | trace
  deriving Repr, DecidableEq

namespace Detail

/-- Whether lines of some detail are shown for a verbosity. -/
def isShown (verbosity : Nat) : Detail → Bool
  | .debug => 1 ≤ verbosity
  | .trace => 2 ≤ verbosity

/-- The word in front of a line. -/
def word : Detail → String
  | .debug => "DEBUG"
  | .trace => "TRACE"

end Detail

/-- A line of the journal. -/
structure Entry where
  detail : Detail
  message : String
  deriving Repr, DecidableEq

namespace Entry

/-- The line as it is shown. -/
def text (entry : Entry) : String :=
  "[" ++ entry.detail.word ++ " lambdacalc::engine] " ++ entry.message

/-- The line about a renaming. -/
def ofRenaming (change : Renaming) : Entry :=
  let symbol := String.ofList (change.binder.symbol .logical)
  ⟨.debug, s!"Renaming {change.old} to {change.new} to avoid capture by {symbol}"⟩

/-- The lines about a contraction. -/
def ofContraction (redex : Redex) (contraction : Contraction) : List Entry :=
  match contraction.kind with
  | .alpha => contraction.renamings.reverse.map ofRenaming
  | .beta => [⟨.trace, s!"β: [{redex.function}]({redex.argument}) ⇒ {contraction.result}"⟩]

/-- The line about a step and its number. -/
def ofStep (number : Nat) (step : Step) : Entry :=
  let word :=
    match step.kind with
    | .alpha => "AlphaVariant"
    | .beta => "BetaReduction"
  ⟨.trace, s!"step {number}: {word} ⇒ {step.result}"⟩

end Entry

/--
The journal of a derivation with a number of steps remaining. The step beyond
the limit is contracted, and found to be too much only then.
-/
def journalWithin : (remaining : Nat) → (number : Nat) → Term → List Entry
  | remaining, number, term =>
      match term.leftmostRedex? with
      | none => []
      | some place =>
          match place.redex.contract with
          | .error _ => []
          | .ok contraction =>
              let step : Step := ⟨contraction.kind, place.replace contraction.result⟩
              Entry.ofContraction place.redex contraction ++
                match remaining with
                | 0 => []
                | remaining + 1 =>
                    Entry.ofStep number step :: journalWithin remaining (number + 1) step.result

/-- The journal of the derivation of a term within a limit. -/
def journal (term : Term) (limit : Nat) : List Entry :=
  journalWithin limit 1 term

end TypedLambda.CommandLine
