import Groom.Machine.Image
import Groom.Shell.Condition
import Groom.Shell.Field
import Groom.Shell.Printing
import Groom.Shell.Reader
import Groom.Shell.Signal
import Groom.Shell.Stream

/-!
The commands that the shell does itself, other than those that run further commands.
-/
namespace Groom.Shell.Builtin

def text (bs : Bytes) : String := String.ofList (charsOf bs)

/-- Reads the options of a command: their letters, in order, and the arguments after them. -/
def options (allowed : List Char) : List Bytes → Script (List Char × List Bytes)
  | [] => return ([], [])
  | arg :: rest =>
    match charsOf arg with
    | ['-', '-'] => return ([], rest)
    | '-' :: c :: cs => do
      match (c :: cs).find? (· ∉ allowed) with
      | some bad => fault (Bytes.ofString s!"Illegal option -{bad}")
      | none =>
        let (more, rest) ← options allowed rest
        return (c :: cs ++ more, rest)
    | _ => return ([], arg :: rest)

/-- Prints a text; complains if that is not possible. -/
def print (bs : Bytes) : Script Unit := do
  if bs = [] then finish 0
  else if ← write 1 bs then finish 0
  else
    warn ((← get).speaker.getD [] ++ Bytes.ofString ": I/O error")
    finish 1

/-- A text in single quotes; single quotes in it stand between double quotes. -/
def quoted (bs : Bytes) : Bytes :=
  let q := byteOf '\''
  let d := byteOf '"'
  let piece (bs : Bytes) : Bytes := q :: bs ++ [q]
  let pieces := (Bytes.splitOn q bs).map piece
  if q ∈ bs then
    (pieces.intersperse (d :: q :: [d])).flatten
  else piece bs

/-- Splits an argument at its first equal sign. -/
def splitAssignment (arg : Bytes) : Bytes × Option Bytes :=
  let name := arg.takeWhile (· ≠ byteOf '=')
  (name, if name.length < arg.length then some (arg.drop (name.length + 1)) else none)

/-- The name that a text writes, or a stop. -/
def variableName (bs : Bytes) : Script String :=
  if isName (charsOf bs) then return text bs
  else fault (bs ++ Bytes.ofString ": bad variable name")

/-- Marks variables, with new values for some of them. -/
def mark (change : Variable → Variable) (args : List Bytes) : Script Unit := do
  args.forM fun arg => do
    let (name, value) := splitAssignment arg
    let name ← variableName name
    match value with
    | some value => assign name value
    | none => pure ()
    let old := ((← get).vars.get? name).getD ⟨none, false, false⟩
    setVariable name (change old)
  finish 0

def listVariables (front : String) (chosen : Variable → Bool) : Script Unit := do
  let lines := (← get).vars.entries.filterMap fun (name, v) =>
    if !chosen v then none
    else match v.value with
      | some value => some (Bytes.ofString (front ++ name ++ "=") ++ quoted value ++ [10])
      | none => if front = "" then none else some (Bytes.ofString (front ++ name ++ "\n"))
  print lines.flatten

/-- Marks variables, or lists those that are marked. -/
def marking (word : String) (change : Variable → Variable) (chosen : Variable → Bool)
    (args : List Bytes) : Script Unit := do
  let (letters, rest) ← options ['p'] args
  if rest = [] ∨ letters ≠ [] then listVariables (word ++ " ") chosen else mark change rest

def unset (args : List Bytes) : Script Unit := do
  let (letters, names) ← options ['f', 'v'] args
  names.forM fun name => do
    if letters.getLast? = some 'f' then
      modify fun s =>
        { s with functions := .ofList (s.functions.entries.filter (·.1 ≠ text name)) }
    else unassign (← variableName name)
  finish 0

def makeLocals (args : List Bytes) : Script Unit := do
  if (← get).locals = [] then fault (Bytes.ofString "not in a function")
  args.forM fun arg => do
    if text arg ≠ "-" then
      let (name, value) := splitAssignment arg
      let name ← variableName name
      makeLocal name
      match value with
      | some value => assign name value
      | none => pure ()
  finish 0

def listOptions (plain : Bool) : Script Unit := do
  let s ← get
  let line (e : Char × String) : String :=
    let on := s.has e.1
    if plain then (if on then "set -o " else "set +o ") ++ e.2 ++ "\n"
    else e.2 ++ String.ofList (List.replicate (16 - e.2.length) ' ') ++
      (if on then "on\n" else "off\n")
  let head := if plain then "" else "Current option settings\n"
  print (Bytes.ofString (head ++ String.join (optionNames.map line)))

def setLetters (on : Bool) (letters : List Char) : Script Unit :=
  letters.forM fun c =>
    if c = 'o' then pure ()
    else if (optionNames.map (·.1)).contains c then setOption c on
    else
      let sign := if on then "-" else "+"
      fault (Bytes.ofString s!"Illegal option {sign}{c}")

/-- Sets options, up to the arguments after them: those that replace the arguments of the script, if
there are any. -/
def setOptions : (fuel : Nat) → List Bytes → Script (Option (List Bytes))
  | 0, _ => return none
  | _, [] => return none
  | fuel + 1, arg :: rest => do
    let set (on : Bool) (letters : List Char) : Script (Option (List Bytes)) := do
      setLetters on letters
      if letters.contains 'o' then
        match rest with
        | [] =>
          listOptions (!on)
          return none
        | name :: rest =>
          match optionNames.find? fun e => e.2 = text name with
          | some (c, _) => setOption c on
          | none => fault (Bytes.ofString "Illegal option -o " ++ name)
          setOptions fuel rest
      else setOptions fuel rest
    match charsOf arg with
    | ['-', '-'] => return some rest
    | ['-'] =>
      setOption 'x' false
      setOption 'v' false
      return if rest = [] then none else some rest
    | '-' :: letters => set true letters
    | '+' :: letters => set false letters
    | _ => return some (arg :: rest)

/-- Sets options and arguments, or lists the variables. -/
def set (args : List Bytes) : Script Unit := do
  if args = [] then listVariables "" fun v => v.value.isSome
  else
    let found ← setOptions (args.length + 1) args
    match found with
    | some args => modify fun s => { s with args, optionPlace := {} }
    | none => pure ()
    finish 0

def shift (args : List Bytes) : Script Unit := do
  let count ← match args with
    | [] => pure 1
    | arg :: _ => number arg
  if (← get).args.length < count then fault (Bytes.ofString "can\x27t shift that many")
  modify fun s => { s with args := s.args.drop count, optionPlace := {} }
  finish 0

/-- Leaves loops, or goes on with their next turn. -/
def leave (jump : Nat → Jump) (args : List Bytes) : Script Unit := do
  let count ← match args with
    | [] => pure 1
    | arg :: _ => do
      let n ← number arg
      if n = 0 then illegalNumber arg else pure n
  finish 0
  let count := min count (← get).loops
  if 0 < count then throw (jump count)

/-- Takes a status, the last one if none is given. -/
def withStatus (jump : Jump) (args : List Bytes) : Script Unit := do
  match args with
  | [] => pure ()
  | arg :: _ => finish (← number arg)
  throw jump

/-- The directory that a path leads to from another, with the dots resolved by the names alone. -/
def logical (here dest : Bytes) : Bytes :=
  let start : List Bytes :=
    if dest.head? = some Bytes.slash then [] else (Path.mk here).segments
  let names := (Path.mk dest).segments.foldl
    (fun (names : List Bytes) s =>
      if s = [Bytes.dot] then names
      else if s = [Bytes.dot, Bytes.dot] then names.dropLast
      else names ++ [s])
    start
  if names = [] then [Bytes.slash] else (Path.ofNames names).bytes

/-- The directory that a path is looked for in: the first of a search path that holds it. A path
that begins at the root or with dots is not looked for. -/
def base? (s : Session) (dest : Bytes) : Option Path :=
  let first := dest.takeWhile (· ≠ Bytes.slash)
  if first = [] ∨ first = [Bytes.dot] ∨ first = [Bytes.dot, Bytes.dot] then none
  else
    let bases := ((s.value? "CDPATH").map Machine.Image.directories).getD []
    bases.find? fun base => s.files.isDirectory (Machine.Image.within base dest)

def cd (args : List Bytes) : Script Unit := do
  let (letters, rest) ← options ['L', 'P'] args
  let s ← get
  let physical := letters.getLast? = some 'P'
  let dest ← match rest with
    | [] => pure ((s.value? "HOME").getD [])
    | arg :: _ =>
      if text arg = "-" then pure ((s.value? "OLDPWD").getD []) else pure arg
  let dest := if dest = [] then [Bytes.dot] else dest
  let base := base? s dest
  let dest := (base.map fun base => (Machine.Image.within base dest).bytes).getD dest
  let here := (s.value? "PWD").getD []
  let known := here ≠ [] ∨ dest.head? = some Bytes.slash
  let path := if physical ∨ !known then dest else logical here dest
  match s.files.resolve .follow ⟨path⟩ with
  | .ok (.entry loc (.directory _)) =>
    let shown := if physical ∨ !known then (FileSystem.pathOf loc).bytes else path
    modify fun s =>
      { s with process := { s.process with cwd := .enter s.system.tree loc } }
    assign "OLDPWD" here
    assign "PWD" shown
    modify fun s =>
      let mark (name : String) (vs : StringMap Variable) : StringMap Variable :=
        match vs.get? name with
        | some v => vs.insert name { v with exported := true }
        | none => vs
      { s with vars := mark "OLDPWD" (mark "PWD" s.vars) }
    let isNews := (rest.head?.map text) = some "-" ∨ base.any fun base => base.bytes ≠ []
    if isNews then print (shown ++ [10]) else finish 0
  | _ => fault (Bytes.ofString "can\x27t cd to " ++ rest.head?.getD dest)

def pwd (args : List Bytes) : Script Unit := do
  let (letters, _) ← options ['L', 'P'] args
  let s ← get
  let physical := s.files.here?.map (·.bytes)
  let found := if letters.getLast? = some 'P' then physical else (s.value? "PWD").or physical
  print (found.getD [] ++ [10])

def printf (args : List Bytes) : Script Unit := do
  let (_, rest) ← options [] args
  match rest with
  | [] => fault (Bytes.ofString "usage: printf format [arg ...]")
  | format :: args =>
    match Printing.printed format args with
    | .wrong p message =>
      let _ ← write 1 p.written
      fault message
    | .done p | .stopped p =>
      p.complaints.forM warn
      print p.written
      if p.complaints ≠ [] then finish 1

def check (bracketed : Bool) (args : List Bytes) : Script Unit := do
  let closes (arg : Bytes) : Bool := arg.head? = some (byteOf ']')
  if bracketed ∧ !(args.getLast?.any closes) then fault (Bytes.ofString "missing ]")
  match Condition.check (← get).files (if bracketed then args.dropLast else args) with
  | .ok true => finish 0
  | .ok false => finish 1
  | .error message => fault message

/-- The stretches of a line: what a backslash protects is not cut. -/
def stretches (bytes : List (UInt8 × Bool)) : List Stretch :=
  bytes.foldr
    (fun (b, protected_) rest =>
      let region : Region := if protected_ then .nowhere else .separators
      match rest with
      | s :: others =>
        if s.region = region then ⟨region, .byte b false :: s.marks⟩ :: others
        else ⟨region, [.byte b false]⟩ :: rest
      | [] => [⟨region, [.byte b false]⟩])
    []

/-- Drops the options of `read`: whether backslashes count, and the names. -/
def readOptions : List Bytes → Script (Bool × List Bytes)
  | [] => return (false, [])
  | arg :: rest =>
    match charsOf arg with
    | ['-', '-'] => return (false, rest)
    | ['-', 'r'] => do return (true, (← readOptions rest).2)
    | ['-', 'p'] => readOptions (rest.drop 1)
    | '-' :: 'p' :: _ => readOptions rest
    | '-' :: 'r' :: 'p' :: [] => do return (true, (← readOptions (rest.drop 1)).2)
    | '-' :: c :: _ => fault (Bytes.ofString s!"Illegal option -{c}")
    | _ => return (false, arg :: rest)
termination_by args => args.length
decreasing_by all_goals simp only [List.length_cons, List.length_drop]; omega

/-- Reads a line into variables; the last one takes what is left. -/
def read (args : List Bytes) : Script Unit := do
  let (raw, names) ← readOptions args
  if names = [] then fault (Bytes.ofString "arg count")
  let line := (← readLine raw).getD ⟨[], 0, false⟩
  let fields := Field.cut (← get).separators (some names.length) (stretches line.bytes)
  (names.zipIdx).forM fun (name, i) => do
    assign (← variableName name) (((fields[i]?).map Mark.text).getD [])
  finish (if line.ended then 0 else 1)

/-- What is found where options are read. -/
inductive FoundOption where
  /-- There are no more options. -/
  | ended
  | unknown (letter : Char)
  /-- An option without the argument that it needs. -/
  | lone (letter : Char)
  /-- An option with its argument, which is empty if it takes none. -/
  | option (letter : Char) (value : Bytes)

/-- Finds an option among those that are allowed: what follows it there. A colon says that the
option before it takes an argument. -/
def allowed? (letter : Char) : List Char → Option (List Char)
  | [] => none
  | c :: ':' :: rest => if c = letter then some (':' :: rest) else allowed? letter rest
  | c :: rest => if c = letter then some rest else allowed? letter rest

def nextOption (allowed : List Char) (args : List Bytes) (place : OptionPlace) :
    FoundOption × OptionPlace :=
  let unfinished : List Char := match place.offset with
    | some offset => (charsOf ((args[place.next - 2]?).getD [])).drop offset
    | none => []
  match unfinished, (args[place.next - 1]?).map charsOf with
  | c :: cs, _ => found c cs place.next
  | [], some ['-', '-'] => (.ended, { next := place.next + 1 })
  | [], some ('-' :: c :: cs) => found c cs (place.next + 1)
  | [], _ => (.ended, { next := place.next })
where
  /-- Looks at an option; `cs` follows it in its argument, and `next` is the argument after that. -/
  found (c : Char) (cs : List Char) (next : Nat) : FoundOption × OptionPlace :=
    let rest : OptionPlace :=
      { next, offset := some (((args[next - 2]?).getD []).length - cs.length) }
    match allowed? c allowed with
    | none => (.unknown c, rest)
    | some (':' :: _) =>
      match cs, args[next - 1]? with
      | [], none => (.lone c, { next })
      | [], some value => (.option c value, { next := next + 1 })
      | cs, _ => (.option c (cs.map byteOf), { next })
    | some _ => (.option c [], rest)

/-- Reads options of the script one by one. -/
def getopts (args : List Bytes) : Script Unit := do
  match args with
  | allowed :: name :: own => do
    let s ← get
    let args := if own = [] then s.args else own
    let letters := charsOf allowed
    let silent := letters.head? = some ':'
    let letters := if silent then letters.drop 1 else letters
    let place := if args.length + 1 < s.optionPlace.next then {} else s.optionPlace
    let (found, place) := nextOption letters args place
    let refuse (c : Char) (shown : Char) (message : String) : Script Char := do
      if silent then
        assign "OPTARG" [byteOf c]
        return shown
      else
        let _ ← write 2 (Bytes.ofString message)
        unassign "OPTARG"
        return '?'
    let shown ← match found with
      | .ended => pure '?'
      | .unknown c => refuse c '?' s!"Illegal option -{c}\n"
      | .lone c => refuse c ':' s!"No arg for -{c} option\n"
      | .option c value => do
        assign "OPTARG" value
        pure c
    assign "OPTIND" (ofNat place.next)
    modify fun s => { s with optionPlace := place }
    assign (← variableName name) [byteOf shown]
    finish (match found with | .ended => 1 | _ => 0)
  | _ => fault (Bytes.ofString "Usage: getopts optstring var [arg...]")

def kill (args : List Bytes) : Script Unit := do
  let usage {α : Type} : Script α :=
    fault (Bytes.ofString ("Usage: kill [-s sigspec | -signum | -sigspec] [pid | job]... or\n" ++
      "kill -l [exitstatus]"))
  let send (signal : Nat) (targets : List Bytes) : Script Unit := do
    if targets = [] then usage
    let mut status := 0
    for target in targets do
      let found ← match integer? target with
        | some (.ofNat n) => Signal.send signal n
        | some _ => pure false
        | none => illegalNumber target
      if !found then
        warn (Bytes.ofString "No such process\n")
        status := 1
    finish status
  match args with
  | [] => usage
  | first :: rest =>
    match charsOf first with
    | ['-', 'l'] =>
      match rest with
      | [] =>
        let shown := Signal.names.drop 1
        print (Bytes.ofString (String.join (shown.map (· ++ "\n"))))
      | arg :: _ =>
        let n ← number arg
        let n := if 128 < n then n - 128 else n
        print (Bytes.ofString (Signal.nameOf n ++ "\n"))
    | ['-', 's'] =>
      match rest with
      | [] => fault (Bytes.ofString "No arg for -s option")
      | name :: targets =>
        match Signal.ofText? 1 name with
        | some signal => send signal targets
        | none => fault (Bytes.ofString "invalid signal number or name: " ++ name)
    | ['-', '-'] => send 15 rest
    | '-' :: name =>
      match Signal.ofText? 1 (name.map byteOf) with
      | some signal => send signal rest
      | none =>
        let letter := name.head?.getD '-'
        fault (Bytes.ofString s!"Illegal option -{letter}")
    | _ => send 15 args

/-- Sets the commands for signals, or lists them. -/
def trap (args : List Bytes) : Script Unit := do
  let (_, args) ← options [] args
  match args with
  | [] =>
    let traps := (← get).traps.mergeSort fun a b => a.1 ≤ b.1
    print (traps.flatMap fun (signal, action) =>
      Bytes.ofString "trap -- " ++ quoted action ++ Bytes.ofString s!" {Signal.nameOf signal}\n")
  | first :: rest =>
    let isNumber := first ≠ [] ∧ (charsOf first).all Char.isDigit
    let (action, names) : Option Bytes × List Bytes :=
      if rest = [] ∨ isNumber then (none, first :: rest)
      else (if text first = "-" then none else some first, rest)
    finish 0
    for name in names do
      match Signal.ofText? 0 name with
      | none =>
        let _ ← write 2 (Bytes.ofString "trap: " ++ name ++ Bytes.ofString ": bad trap\n")
        finish 1
        return
      | some signal =>
        modify fun s =>
          let others := s.traps.filter (·.1 ≠ signal)
          { s with traps := (action.map (signal, ·)).toList ++ others }

def wait (args : List Bytes) : Script Unit := do
  match args with
  | [] =>
    modify fun s =>
      { s with system := s.jobs.foldl (fun system j => system.reap j.1) s.system }
    finish 0
  | args =>
    args.forM fun arg => do
      let n ← number arg
      match (← get).jobs.lookup n with
      | some status =>
        modify fun s => { s with system := s.system.reap n }
        finish status
      | none => finish 127

/-- Prints the mask for new files, or takes a new one. -/
def umask (args : List Bytes) : Script Unit :=
  if args = [] then print (Bytes.ofString "0022\n") else finish 0

def named? (name : String) : Option (List Bytes → Script Unit) :=
  match name with
  | ":" | "true" | "hash" | "alias" | "unalias" | "jobs" | "ulimit" | "times" =>
    some fun _ => finish 0
  | "false" => some fun _ => finish 1
  | "echo" => some fun args => print (Printing.echo args)
  | "printf" => some printf
  | "test" => some (check false)
  | "[" => some (check true)
  | "exit" => some (withStatus .quit)
  | "return" => some (withStatus .back)
  | "break" => some (leave .leave)
  | "continue" => some (leave .again)
  | "shift" => some shift
  | "set" => some set
  | "unset" => some unset
  | "export" => some (marking name (fun v => { v with exported := true }) (·.exported))
  | "readonly" => some (marking name (fun v => { v with constant := true }) (·.constant))
  | "local" => some makeLocals
  | "cd" | "chdir" => some cd
  | "pwd" => some pwd
  | "read" => some read
  | "getopts" => some getopts
  | "kill" => some kill
  | "trap" => some trap
  | "wait" => some wait
  | "umask" => some umask
  | "fg" | "bg" => some fun _ => fault (Bytes.ofString "job control not enabled")
  | _ => none

/-- The commands of the shell that run further commands. -/
def running : List String := [".", "command", "eval", "exec", "type"]

def isKnown (name : String) : Bool := (named? name).isSome ∨ name ∈ running

/-- Whether a command keeps its meaning whatever a script defines. -/
def isSpecial (name : String) : Bool := name ∈ Reader.specialCommands

/-- Whether the arguments of a command are assignments, which are not cut. -/
def isDeclaration (name : Bytes) : Bool := text name ∈ ["export", "readonly", "local", "alias"]

end Groom.Shell.Builtin
