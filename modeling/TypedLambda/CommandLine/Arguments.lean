namespace TypedLambda.CommandLine

/-!
# Arguments

A command line names a task, gives it a text, and may hold flags and options
with a value. Arguments are understood from left to right, and the first one
that makes no sense, or that asks for help or the version, decides what is
done. Everything after `--` is text, whatever it looks like.
-/

/-- What the program can be asked to do with a text. -/
inductive Task where
  /-- Read a type and print it. -/
  | parseType
  /-- Print a term with its type. -/
  | typing
  /-- Print every conversion step of a term. -/
  | reduction
  deriving Repr, DecidableEq

/-- A flag of a task. -/
inductive Flag where
  /-- Print with plain characters. -/
  | asciiOutput
  /-- Accept no letters for binders. -/
  | unicodeOnly
  /-- Let identifiers span several letters. -/
  | multiLetter
  deriving Repr, DecidableEq

/-- An option of a task that takes a value. -/
inductive ValueOption where
  /-- Typing conventions in the place of the usual ones. -/
  | conventions
  /-- The number of steps after which to give up. -/
  | maxSteps
  deriving Repr, DecidableEq

/-- Why a command line cannot be obeyed. -/
inductive Misuse where
  | missingTask
  | unknownTask (argument : String)
  | unexpectedArgument (argument : String)
  | unexpectedValue (argument : String)
  | missingValue (option : ValueOption)
  | invalidNumber (value : String)
  | repeated (argument : String)
  | missingText
  deriving Repr, DecidableEq

/-- What is done instead of a task. -/
inductive Instead where
  | showVersion
  | showHelp
  | refuse (misuse : Misuse)
  deriving Repr, DecidableEq

/-- What the arguments of a task have given so far. -/
structure Given where
  text : Option String
  flags : List Flag
  conventions : Option String
  maxSteps : Option Nat
  /-- How often more output was asked for behind the task, if at all. -/
  verbosity : Option Nat
  deriving Repr, DecidableEq

/-- A task with everything that it needs to know. -/
structure Invocation where
  task : Task
  text : String
  flags : List Flag
  conventions : Option String
  maxSteps : Nat
  verbosity : Nat
  deriving Repr, DecidableEq

namespace Task

/-- The task that an argument names. -/
def ofName? : String → Option Task
  | "parse-type" => some .parseType
  | "type" => some .typing
  | "t" => some .typing
  | "reduce" => some .reduction
  | "r" => some .reduction
  | _ => none

/-- The flag of a task that a long name stands for. -/
def flag? (task : Task) (name : String) : Option Flag :=
  match task, name with
  | _, "ascii-output" => some .asciiOutput
  | .parseType, _ => none
  | _, "unicode-only" => some .unicodeOnly
  | _, "multi-letter" => some .multiLetter
  | _, _ => none

/-- The option with a value that a long name stands for in a task. -/
def option? (task : Task) (name : String) : Option ValueOption :=
  match task, name with
  | .typing, "conventions" => some .conventions
  | .reduction, "conventions" => some .conventions
  | .reduction, "max-steps" => some .maxSteps
  | _, _ => none

end Task

/-- The greatest number of steps plus one, 2 to the power of 64. -/
def stepBound : Nat := 18446744073709551616

/-- A number below the bound, in digits, with a plus sign allowed in front. -/
def readNumber? (value : String) : Option Nat :=
  let digits :=
    match value.toList with
    | '+' :: rest => rest
    | all => all
  if digits.isEmpty || !digits.all Char.isDigit then
    none
  else
    let number := digits.foldl (fun total digit => 10 * total + (digit.toNat - '0'.toNat)) 0
    if number < stepBound then some number else none

/-- The name of a long option and the value attached to it with an equals sign. -/
def splitLong (argument : List Char) : String × Option String :=
  let name := argument.takeWhile (· != '=')
  match argument.dropWhile (· != '=') with
  | [] => (String.ofList name, none)
  | _ :: value => (String.ofList name, some (String.ofList value))

/--
Count the letters `v` of an argument with a single dash. The letter `V` is
known only in front of the task.
-/
def readLetters
    (versionKnown : Bool)
    (argument : String) :
    List Char → Nat → Except Instead Nat
  | [], count => .ok count
  | letter :: rest, count =>
      if letter = 'v' then
        readLetters versionKnown argument rest (count + 1)
      else if letter = 'h' then
        .error .showHelp
      else if letter = 'V' && versionKnown then
        .error .showVersion
      else
        .error (.refuse (.unexpectedArgument argument))

namespace Given

/-- Nothing given yet. -/
def nothing : Given := ⟨none, [], none, none, none⟩

/-- Take an argument as the text. -/
def addText (given : Given) (argument : String) : Except Instead Given :=
  match given.text with
  | none => .ok { given with text := some argument }
  | some _ => .error (.refuse (.unexpectedArgument argument))

/-- Raise a flag, which may be given once. -/
def addFlag (given : Given) (flag : Flag) (argument : String) : Except Instead Given :=
  if flag ∈ given.flags then
    .error (.refuse (.repeated argument))
  else
    .ok { given with flags := given.flags ++ [flag] }

/-- Ask for more output. -/
def addVerbosity (given : Given) (count : Nat) : Given :=
  { given with verbosity := some (given.verbosity.getD 0 + count) }

/-- Give an option its value, which may be done once. -/
def addValue
    (given : Given)
    (option : ValueOption)
    (value : String) :
    Except Instead Given :=
  match option with
  | .conventions =>
      if given.conventions.isSome then
        .error (.refuse (.repeated "--conventions"))
      else
        .ok { given with conventions := some value }
  | .maxSteps =>
      match readNumber? value with
      | none => .error (.refuse (.invalidNumber value))
      | some number =>
          if given.maxSteps.isSome then
            .error (.refuse (.repeated "--max-steps"))
          else
            .ok { given with maxSteps := some number }

/--
Take a long option: what is given then, and the option that still waits for
its value.
-/
def addLong
    (given : Given)
    (task : Task)
    (argument : String)
    (name : String)
    (value : Option String) :
    Except Instead (Given × Option ValueOption) :=
  match task.flag? name, task.option? name, value with
  | some flag, _, none => do
      let given ← given.addFlag flag argument
      return (given, none)
  | some _, _, some _ => .error (.refuse (.unexpectedValue argument))
  | none, some option, none => .ok (given, some option)
  | none, some option, some value => do
      let given ← given.addValue option value
      return (given, none)
  | none, none, value =>
      match name, value with
      | "verbose", none => .ok (given.addVerbosity 1, none)
      | "help", none => .error .showHelp
      | _, _ => .error (.refuse (.unexpectedArgument argument))

/-- Understand the arguments behind the task. -/
def readAll
    (task : Task) :
    Given → (waiting : Option ValueOption) → (textOnly : Bool) → List String →
      Except Instead Given
  | given, none, _, [] => .ok given
  | _, some option, _, [] => .error (.refuse (.missingValue option))
  | given, some option, textOnly, argument :: rest =>
      if argument.toList.head? = some '-' && argument != "-" then
        .error (.refuse (.missingValue option))
      else do
        let given ← given.addValue option argument
        readAll task given none textOnly rest
  | given, none, true, argument :: rest => do
      let given ← given.addText argument
      readAll task given none true rest
  | given, none, false, argument :: rest =>
      match argument.toList with
      | ['-', '-'] => readAll task given none true rest
      | '-' :: '-' :: long => do
          let (name, value) := splitLong long
          let (given, waiting) ← given.addLong task argument name value
          readAll task given waiting false rest
      | '-' :: letter :: letters => do
          let count ← readLetters false argument (letter :: letters) 0
          readAll task (given.addVerbosity count) none false rest
      | _ => do
          let given ← given.addText argument
          readAll task given none false rest

end Given

namespace Invocation

/-- How many steps a reduction may take unless another number is given. -/
def usualMaxSteps : Nat := 1000

/-- Fill in what the arguments leave open, the verbosity from those before the task. -/
def ofGiven (task : Task) (verbosity : Nat) (given : Given) : Except Instead Invocation :=
  match given.text with
  | none => .error (.refuse .missingText)
  | some text =>
      .ok ⟨task, text, given.flags, given.conventions, given.maxSteps.getD usualMaxSteps,
        given.verbosity.getD verbosity⟩

/--
What the word `help` leads to with the arguments behind it: the usage, for all
tasks or for the one named. Tasks have no parts that could be named further.
-/
def readHelp : List String → Instead
  | [] => .showHelp
  | name :: rest =>
      if name = "help" || (Task.ofName? name).isSome then
        match rest with
        | [] => .showHelp
        | next :: _ => .refuse (.unknownTask next)
      else
        .refuse (.unknownTask name)

/-- Understand a command line, given the verbosity asked for so far. -/
def readAll : (verbosity : Nat) → List String → Except Instead Invocation
  | _, [] => .error (.refuse .missingTask)
  | verbosity, argument :: rest =>
      match Task.ofName? argument with
      | some task => do
          let given ← Given.readAll task .nothing none false rest
          ofGiven task verbosity given
      | none =>
          match argument.toList with
          | ['-', '-'] => .error (.refuse .missingTask)
          | '-' :: '-' :: long =>
              match String.ofList long with
              | "verbose" => readAll (verbosity + 1) rest
              | "version" => .error .showVersion
              | "help" => .error .showHelp
              | _ => .error (.refuse (.unexpectedArgument argument))
          | '-' :: letter :: letters => do
              let count ← readLetters true argument (letter :: letters) 0
              readAll (verbosity + count) rest
          | _ =>
              if argument = "help" then
                .error (readHelp rest)
              else
                .error (.refuse (.unknownTask argument))

end Invocation

end TypedLambda.CommandLine
