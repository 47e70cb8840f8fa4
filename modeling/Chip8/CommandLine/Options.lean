import Chip8.Storage.Disk

/-!
# Options

What a command line asks for: the file of a program, and how to play it.  An option's value follows
it as an argument of its own or after an equals sign, and no option may come twice.
-/

namespace Chip8

structure Options where
  /-- The file of the program. -/
  program : String
  /-- The file of the settings. -/
  settings : String
  hiRes : Bool
  superChip : Bool
  seed : Option UInt64
  /-- Instructions after which to stop. -/
  limit : Option UInt64
  deriving DecidableEq, Repr

/-- Why a command line is refused. -/
inductive UsageError where
  | unknownOption (name : String)
  | repeatedOption (name : String)
  | missingValue (name : String)
  | surplusValue (name : String)
  | notANumber (name value : String)
  | surplusArgument (argument : String)
  | missingProgram
  deriving DecidableEq, Repr

def UsageError.message : UsageError → String
  | unknownOption name => s!"there is no option {name}"
  | repeatedOption name => s!"{name} is given twice"
  | missingValue name => s!"{name} needs a value"
  | surplusValue name => s!"{name} takes no value"
  | notANumber name value => s!"{value} is not a number for {name}"
  | surplusArgument argument => s!"{argument} is one argument too many"
  | missingProgram => "no program is given"

/-! ## Arguments -/

inductive Argument where
  | plain (text : String)
  /-- An option, with its value where that is written after an equals sign. -/
  | option (name : String) (value : Option String)
  deriving DecidableEq, Repr

/-- A lone dash is no option. -/
def Argument.ofString (s : String) : Argument :=
  let cs := s.toList
  if cs.head? = some '-' ∧ s ≠ "-" then
    match cs.dropWhile (· ≠ '=') with
    | [] => .option s none
    | _ :: value => .option (String.ofList (cs.takeWhile (· ≠ '='))) (some (String.ofList value))
  else .plain s

/-- The number that a text writes in decimal, if it has 64 bits at most. -/
def number? (s : String) : Option UInt64 :=
  let digits := s.toList
  if digits.isEmpty ∨ digits.any (!·.isDigit) then none
  else
    let n := digits.foldl (fun n c => 10 * n + (c.toNat - '0'.toNat)) 0
    if n < UInt64.size then some (UInt64.ofNat n) else none

/-! ## Options from arguments -/

namespace Options

/-- Options of which the program may be missing, with the names of those given so far. -/
structure Draft where
  program : Option String
  options : Options
  given : List String

def Draft.blank : Draft := ⟨none, ⟨"", "config.json", false, false, none, none⟩, []⟩

/-- The options after one without a value, if there is such an option. -/
def withFlag? (o : Options) : String → Option Options
  | "--hi-res" => some { o with hiRes := true }
  | "--super-chip" => some { o with superChip := true }
  | _ => none

/-- Whether an option needs a value. -/
def needsValue (name : String) : Bool :=
  name == "--config" || name == "--seed" || name == "--cycles"

/-- The options after one with its value. -/
def withValue (o : Options) (name value : String) : Except UsageError Options :=
  if name = "--config" then .ok { o with settings := value }
  else
    match number? value with
    | none => .error (.notANumber name value)
    | some n =>
      .ok (if name = "--seed" then { o with seed := some n } else { o with limit := some n })

/-- The draft after all arguments. -/
def Draft.read (d : Draft) : List Argument → Except UsageError Draft
  | [] => .ok d
  | .plain text :: later =>
    if d.program.isSome then .error (.surplusArgument text)
    else { d with program := some text }.read later
  | .option name value :: later =>
    let d := { d with given := name :: d.given }
    if name ∈ d.given.tail then .error (.repeatedOption name)
    else
      match d.options.withFlag? name with
      | some options =>
        if value.isSome then .error (.surplusValue name) else { d with options }.read later
      | none =>
        if !needsValue name then .error (.unknownOption name)
        else
          match value, later with
          | some value, later => do
            let options ← d.options.withValue name value
            { d with options }.read later
          | none, .plain value :: later => do
            let options ← d.options.withValue name value
            { d with options }.read later
          | none, _ => .error (.missingValue name)

/-- The options of a command line. -/
def ofArguments (arguments : List String) : Except UsageError Options := do
  let d ← Draft.blank.read (arguments.map .ofString)
  match d.program with
  | some program => .ok { d.options with program }
  | none => .error .missingProgram

/-- The name that saves of a program go by: its file's, without the last extension. -/
def programName (o : Options) : String :=
  match (Path.mk o.program).names.filter (· ≠ ".") |>.getLast? with
  | none => "program"
  | some name =>
    if name = ".." then "program"
    else
      let reversed := name.toList.reverse
      match reversed.dropWhile (· ≠ '.') with
      | _ :: c :: stem => String.ofList (c :: stem).reverse
      | _ => name

/-- What to tell someone who asks how to use the program. -/
def usage : String :=
  "usage: chip8 [options] <program>

  --config <file>    settings, written with defaults if missing (config.json)
  --hi-res           64x64 display
  --super-chip
  --seed <number>    seed the random numbers for a reproducible run
  --cycles <number>  stop after this many instructions

Each line of input is a tenth of a second and names the keys typed at its start, with blanks
between them: characters, Esc to quit, Backspace to rewind, F5 and F8 to save and load the selected
slot, F6 and F7 to pick a slot."

end Options

end Chip8
