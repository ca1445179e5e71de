import TypedLambda.CommandLine.Run

/-!
# The program

Print what the command line leads to, report what goes wrong, and exit.
-/

/-- Run the arguments and pass the outcome on. -/
def main (arguments : List String) : IO UInt32 := do
  let outcome := TypedLambda.CommandLine.run arguments
  for line in outcome.output do
    IO.println line
  for line in outcome.report do
    IO.eprintln line
  return outcome.code.toUInt32
