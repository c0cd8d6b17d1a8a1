import Groom.Machine.System
import Groom.Shell.Source

/-!
The state in which a script runs, and the steps that read and change it.
-/
namespace Groom.Shell

/-- A variable; one without a value is not set but may be marked. -/
structure Variable where
  value : Option Bytes
  exported : Bool := false
  constant : Bool := false
  deriving DecidableEq

/-- How far arguments are read for options. -/
structure OptionPlace where
  /-- The argument that comes next, counted from one. -/
  next : Nat := 1
  /-- How many characters of the argument before it are read, if it may hold more options. -/
  offset : Option Nat := none
  deriving DecidableEq

/-- The state of a script. -/
structure Session where
  system : Machine.System
  process : Machine.Process
  /-- The process of the shell from which this one was split off, or its own. -/
  mainProcess : Nat
  /-- The name under which the script was started. -/
  name : Bytes
  args : List Bytes
  vars : StringMap Variable := {}
  functions : StringMap Command := {}
  /-- The texts that stand in the script, by their numbers. -/
  documents : Array Word := #[]
  /-- The status of the last command. -/
  status : Nat := 0
  /-- The letters of the options that are set. -/
  options : List Char := []
  /-- The line of the command that is running. -/
  line : Nat := 1
  /-- The line up to which the script is read. -/
  reached : Nat := 1
  /-- The command for which the shell speaks. -/
  speaker : Option Bytes := none
  /-- How many loops surround the command that is running. -/
  loops : Nat := 0
  /-- The values that the variables of the running functions had before, the innermost function
  first. -/
  locals : List (List (String × Option Variable)) := []
  /-- The process started last in the background. -/
  background : Option Nat := none
  /-- The processes started in the background with their statuses. -/
  jobs : List (Nat × Nat) := []
  /-- The commands for signals; number zero is the end of the script. -/
  traps : List (Nat × Bytes) := []
  /-- Signals whose commands have not run yet. -/
  pending : List Nat := []
  /-- The status of the last command whose output was expanded. -/
  substituted : Nat := 0
  optionPlace : OptionPlace := {}

/-- Why a script does not go on with the next command. -/
inductive Jump where
  /-- So many loops are left. -/
  | leave (loops : Nat)
  /-- So many loops are left, the last one only for this time. -/
  | again (loops : Nat)
  /-- A function or another script returns. -/
  | back
  | quit
  /-- The script ends unless the command is one that may fail. -/
  | fault
  | died (signal : Nat)
  deriving DecidableEq

abbrev Script := ExceptT Jump (StateM Session)

namespace Session

def files (s : Session) : FileSystem := ⟨s.system.tree, s.process.cwd⟩

def value? (s : Session) (name : String) : Option Bytes :=
  (s.vars.get? name).bind (·.value)

def separators (s : Session) : Bytes := (s.value? "IFS").getD [32, 9, 10]

def home? (s : Session) : Option Bytes := s.value? "HOME"

/-- The variables that the programs started by the script find. -/
def exported (s : Session) : StringMap Bytes :=
  .ofList <| s.vars.entries.filterMap fun (name, v) =>
    if v.exported then v.value.map (name, ·) else none

def has (s : Session) (option : Char) : Bool := s.options.contains option

end Session

def ofNat (n : Nat) : Bytes := Bytes.ofString (toString n)

/-- Writes to a stream; fails if the stream cannot be written to. -/
def write (stream : Nat) (bytes : Bytes) : Script Bool := do
  let s ← get
  match (s.process.streams.lookup stream).map fun n => s.system.write n bytes with
  | some (.ok system) =>
    set { s with system }
    return true
  | _ => return false

/-- Sends a message about the current line to the stream of complaints. -/
def warn (message : Bytes) : Script Unit := do
  let s ← get
  let speaker := match s.speaker with
    | some name => name ++ Bytes.ofString ": "
    | none => []
  let _ ← write 2 (s.name ++ Bytes.ofString s!": {s.line}: " ++ speaker ++ message ++ [10])

def fault {α : Type} (message : Bytes) : Script α := do
  warn message
  modify fun s => { s with status := 2 }
  throw .fault

/-- Stops because of a text that has to be a number. -/
def illegalNumber {α : Type} (text : Bytes) : Script α :=
  fault (Bytes.ofString "Illegal number: " ++ text)

def finish (status : Nat) : Script Unit := modify fun s => { s with status }

def setVariable (name : String) (v : Variable) : Script Unit :=
  modify fun s => { s with vars := s.vars.insert name v }

/-- Reads a whole number in decimal digits, with a sign and blanks around it. -/
def integer? (bs : Bytes) : Option Int :=
  let isSpace (c : Char) : Bool := c ∈ [' ', '\t', '\n', '\x0b', '\x0c', '\r']
  let cs := ((charsOf bs).dropWhile isSpace).reverse.dropWhile isSpace
  let digits (ds : List Char) : Option Nat :=
    if ds ≠ [] ∧ ds.all Char.isDigit then (String.ofList ds).toNat? else none
  match cs.reverse with
  | '-' :: ds => (digits ds).map fun n => -(n : Int)
  | '+' :: ds => (digits ds).map Int.ofNat
  | ds => (digits ds).map Int.ofNat

/-- Reads a number that is not negative, or stops. -/
def number (bs : Bytes) : Script Nat :=
  match integer? bs with
  | some (.ofNat n) => if n < 2147483648 then return n else illegalNumber bs
  | _ => illegalNumber bs

def assign (name : String) (value : Bytes) : Script Unit := do
  let s ← get
  let old := (s.vars.get? name).getD ⟨none, false, false⟩
  if old.constant then fault (Bytes.ofString (name ++ ": is read only"))
  else
    setVariable name
      { old with value := some value, exported := old.exported || s.has 'a' }
    if name = "OPTIND" then
      let next ← number value
      modify fun s => { s with optionPlace := { next := max next 1 } }

def unassign (name : String) : Script Unit := do
  match (← get).vars.get? name with
  | none => return
  | some old =>
    if old.constant then fault (Bytes.ofString (name ++ ": is read only"))
    else
      setVariable name ⟨none, false, false⟩
      if name = "OPTIND" then illegalNumber []

/-- Remembers a variable, so that it gets its value back when the running function returns. -/
def makeLocal (name : String) : Script Unit := do
  let s ← get
  match s.locals with
  | [] => return
  | frame :: rest =>
    if (frame.lookup name).isNone then
      set { s with locals := ((name, s.vars.get? name) :: frame) :: rest }

/-- Gives the variables of a finished function their values back. -/
def restore (frame : List (String × Option Variable)) : Script Unit :=
  frame.forM fun (name, old) => setVariable name (old.getD ⟨none, false, false⟩)

/-- The options by their letters, in the order in which they are listed. An option that has no
letter stands by a control character. -/
def optionNames : List (Char × String) :=
  [('e', "errexit"), ('f', "noglob"), ('I', "ignoreeof"), ('i', "interactive"), ('m', "monitor"),
    ('n', "noexec"), ('s', "stdin"), ('x', "xtrace"), ('v', "verbose"), ('V', "vi"),
    ('E', "emacs"), ('C', "noclobber"), ('a', "allexport"), ('b', "notify"), ('u', "nounset"),
    ('p', "privileged"), ('\x01', "nolog"), ('\x02', "debug")]

def setOption (letter : Char) (on : Bool) : Script Unit :=
  modify fun s =>
    let others := s.options.filter (· ≠ letter)
    { s with options := if on then letter :: others else others }

end Groom.Shell
