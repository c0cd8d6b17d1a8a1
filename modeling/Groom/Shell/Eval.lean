import Groom.Shell.Builtin
import Groom.Shell.Expansion

/-!
Running scripts. What a script does depends on its state and on what becomes of the programs it
starts.
-/
namespace Groom.Shell.Eval

open Machine (Image Launcher Process)

/-- How a command is run. -/
structure Mode where
  /-- Its failure is looked at and so never ends a script. -/
  tested : Bool := false
  /-- Nothing comes after it in its shell. -/
  last : Bool := false

/-- The words that have a meaning of their own at the start of a command, as a search finds them. -/
def isKeyword (name : String) : Bool := name ∈ keywords

/-- How a program was found, or the status and the reason for which it was not. -/
abbrev Search := Except (Nat × String) Image

/-- Makes a program ready that stands at a path. A file that names no interpreter is a script of the
shell itself. -/
def loadScript (fs : FileSystem) (p : Path) (program : Bytes) (args : List Bytes) :
    Except IoError Image :=
  match Image.load fs Image.maxScripts p (program :: args) with
  | .error (.os 8) =>
    let shell : Path := .ofString "/bin/sh"
    Image.load fs Image.maxScripts shell (shell.bytes :: p.bytes :: args)
  | other => other

/-- What the shell says about a program that cannot be started. -/
def refusal (cause : IoError) : Nat × String :=
  match cause with
  | .os number =>
    if number = 2 ∨ number = 20 then (127, "not found")
    else (if number = 36 ∨ number = 40 then 127 else 126, IoError.describe number)
  | .other text => (126, text)

/-- Makes ready the first program that can be run of those at some paths. -/
def loadFirst (fs : FileSystem) (program : Bytes) (args : List Bytes) (fault : IoError) :
    List Path → Search
  | [] => .error (refusal fault)
  | p :: rest =>
    match loadScript fs p program args with
    | .ok image => .ok image
    | .error cause =>
      let passed := cause = .notFound ∨ cause = .notDirectory
      loadFirst fs program args (if passed then fault else cause) rest

/-- The paths at which a program may stand. -/
def places (s : Session) (program : Bytes) : List Path :=
  (Image.directories ((s.value? "PATH").getD [])).map fun dir => Image.within dir program

/-- Passes over the paths at which there is no file that may be executed. If there is none at all, a
path that leads nowhere counts less than any other reason. -/
def skipAbsent (fs : FileSystem) (fault : IoError) : List Path → Except IoError (List Path)
  | [] => .error fault
  | p :: rest =>
    match Image.executable fs p with
    | .ok _ => .ok (p :: rest)
    | .error cause =>
      let passed := cause = .notFound ∨ cause = .notDirectory
      skipAbsent fs (if passed then fault else cause) rest

/-- Makes a program ready to run. Unless the program is to take the place of the shell, a name for
which there is no file to execute always leads to the same status. -/
def search (s : Session) (replace : Bool) (program : Bytes) (args : List Bytes) : Search :=
  if Bytes.slash ∈ program then
    match loadScript s.files ⟨program⟩ program args with
    | .ok image => .ok image
    | .error cause => .error (refusal cause)
  else
    match skipAbsent s.files .notFound (places s program) with
    | .ok paths => loadFirst s.files program args .notFound paths
    | .error cause => .error (if replace then refusal cause else (127, (refusal cause).2))

/-- The status that a process leaves for the one that waits for it. -/
def statusOf : Ending → Nat
  | .exit code => code
  | .signal number => 128 + number

/-- Says that a signal ended a process, unless that is common. -/
def announce : Ending → Script Unit
  | .exit _ => return
  | .signal number => do
    if number ≠ 2 ∧ number ≠ 13 then
      let _ ← write 2 (Bytes.ofString (Signal.describe number ++ "\n"))

/-- Starts a program and waits for it. In place of the shell, the program takes over its process;
`wanted` if the script asks for that. -/
def start (launch : Launcher) (wanted replace : Bool) (program : Bytes) (args : List Bytes) :
    Script Unit := do
  match search (← get) wanted program args with
  | .error (status, reason) =>
    warn (program ++ Bytes.ofString (": " ++ reason))
    finish status
    if replace then throw .quit
  | .ok image =>
    let s ← get
    let (id, system) := if replace then (s.process.id, s.system) else s.system.start
    let child : Process :=
      { s.process with
        id
        parent := if replace then s.process.parent else s.process.id
        environment := s.exported }
    let (ending, system) := launch image child system
    if replace then
      -- the commands for signals are gone with the shell
      set { s with system, traps := [] }
      match ending with
      | .exit code =>
        finish code
        throw .quit
      | .signal number => throw (.died number)
    else
      set { s with system := system.reap id }
      announce ending
      finish (statusOf ending)
      Signal.attend

/-- Describes a command that is searched for by its name. -/
def describe (short : Bool) (name : Bytes) : Script Unit := do
  let s ← get
  let say (text : String) : Script Unit :=
    Builtin.print (name ++ Bytes.ofString ((if short then "" else text) ++ "\n"))
  let text := Builtin.text name
  let found := (if Bytes.slash ∈ name then [⟨name⟩] else places s name).find? fun p =>
    (Image.executable s.files p).isOk
  if isKeyword text then say " is a shell keyword"
  else if Builtin.isSpecial text then say " is a special shell builtin"
  else if (s.functions.get? text).isSome then say " is a shell function"
  else if Builtin.isKnown text then say " is a shell builtin"
  else match found with
    | some p =>
      Builtin.print (if short then p.bytes ++ [10]
        else name ++ Bytes.ofString " is " ++ p.bytes ++ [10])
    | none =>
      if !short then Builtin.print (name ++ Bytes.ofString ": not found\n")
      finish 127

/-- Describes commands; the status is that of the last one that is not found. -/
def describeAll (short : Bool) (names : List Bytes) : Script Unit := do
  let mut status := 0
  for name in names do
    describe short name
    if (← get).status ≠ 0 then status := (← get).status
  finish status

/-- How the turn of a loop ends. -/
inductive Turn where
  /-- There is no turn any more. -/
  | over
  /-- The loop is left. -/
  | left
  | next
  deriving DecidableEq

def turn (work : Script Turn) : Script Turn :=
  tryCatch work fun
    | .leave 1 => return .left
    | .again 1 => return .next
    | .leave (n + 1) => throw (.leave n)
    | .again (n + 1) => throw (.again n)
    | jump => throw jump

/-- Does something and puts the session in order afterwards, whatever happens. -/
def ensuring {α : Type} (after : Session → Session) (work : Script α) : Script α := do
  let found ← tryCatch work fun jump => do
    modify after
    throw jump
  modify after
  return found

/-- How many functions may run inside of one another. -/
def maxCalls : Nat := 1000

def inLoop {α : Type} (work : Script α) : Script α := do
  modify fun s => { s with loops := s.loops + 1 }
  ensuring (fun s => { s with loops := s.loops - 1 }) work

def turns (name : String) (work : Script Unit) : List Bytes → Script Unit
  | [] => return
  | value :: rest => do
    assign name value
    let ended ← turn do
      work
      return .next
    if ended = .next then turns name work rest

/-- Does something that may fail: whether it does not. -/
def attempt (work : Script Unit) : Script Bool :=
  tryCatch (do
    work
    return true)
    fun
      | .fault => return false
      | jump => throw jump

/-- What was written to a text that the machine keeps; it is forgotten there. -/
def takeBuffer (number : Nat) : Script Bytes :=
  modifyGet fun s =>
    let content := match (s.system.opened[number]?).map (·.channel) with
      | some (.buffer content) => content
      | _ => []
    let opened := s.system.opened.modify number fun o => { o with channel := .nothing }
    (content, { s with system := { s.system with opened } })

/-- Shows a command before it runs; `complaints` is where complaints went before the redirections
of the command. -/
def trace (complaints : Option Nat) (assignments : List (String × Bytes)) (args : List Bytes) :
    Script Unit := do
  let s ← get
  if s.has 'x' then
    let front := (s.value? "PS4").getD (Bytes.ofString "+ ")
    let shown := assignments.map (fun a => Bytes.ofString (a.1 ++ "=") ++ a.2) ++ args
    match complaints.map fun n => s.system.write n (front ++ Bytes.joinWith 32 shown ++ [10]) with
    | some (.ok system) => set { s with system }
    | _ => return

/-- Gives variables values that the programs started see, while something is done. -/
def lending {α : Type} (assignments : List (String × Bytes)) (work : Script α) : Script α := do
  let s ← get
  let before := assignments.map fun a => (a.1, s.vars.get? a.1)
  assignments.forM fun (name, value) => do
    assign name value
    setVariable name { value := some value, exported := true }
  let back (s : Session) : Session :=
    { s with
      vars := before.foldr
        (fun (name, old) vs => vs.insert name (old.getD ⟨none, false, false⟩)) s.vars }
  ensuring back work

/-- Ends a script in which a command fails, if that is wanted. -/
def strict (mode : Mode) : Script Unit := do
  let s ← get
  if s.has 'e' ∧ !mode.tested ∧ s.status ≠ 0 then throw .quit

/-- What the words of a command ask for. -/
inductive Order where
  | nothing
  /-- A command that the shell does itself; `special` if its failure ends a script. -/
  | builtin (special : Bool) (name : String) (args : List Bytes)
  | function (body : Command) (args : List Bytes)
  | program (name : Bytes) (args : List Bytes)

/-- Finds out what words ask for. After the word `command`, functions do not count and no failure
ends a script. -/
def order (s : Session) : (plain : Bool) → List Bytes → Order
  | _, [] => .nothing
  | plain, name :: args =>
    let text := Builtin.text name
    let rest := args.dropWhile fun arg => arg = Bytes.ofString "-p" ∨ arg = Bytes.ofString "--"
    if text = "command" ∧ (rest.head?.bind (·.head?)) ≠ some (byteOf '-') then order s true rest
    else if Builtin.isSpecial text then .builtin (!plain) text args
    else match if plain then none else s.functions.get? text with
      | some body => .function body args
      | none => if Builtin.isKnown text then .builtin false text args else .program name args
termination_by _ words => words.length
decreasing_by
  have := (List.dropWhile_sublist (p := fun arg =>
    decide (arg = Bytes.ofString "-p" ∨ arg = Bytes.ofString "--")) (l := args)).length_le
  simp only [List.length_cons]
  omega

/-- A file that is run in place: its path and its text. -/
def readScript (name : Bytes) : Script (Bytes × Bytes) := do
  let s ← get
  if Bytes.slash ∈ name then
    match s.files.read ⟨name⟩ with
    | .ok content => return (name, content)
    | .error cause => openingFault "cannot open" "No such file" name cause
  else
    match (places s name).find? s.files.isFile with
    | some p => return (p.bytes, (s.files.read p).toOption.getD [])
    | none => fault (name ++ Bytes.ofString ": not found")

def dropLines : (lines : Nat) → List Char → List Char
  | 0, cs => cs
  | n + 1, cs => dropLines n ((cs.dropWhile (· ≠ '\n')).drop 1)

/-- Shows what is read of a script, if that is wanted; `left` is not read yet. -/
def showRead (source : Source) (left : List Char) : Script Unit := do
  if source.isFile ∧ (← get).has 'v' then
    let size := source.rest.length - left.length
    let _ ← write 2 ((source.rest.take size).map byteOf)

mutual

def run (launch : Launcher) : (fuel : Nat) → Mode → Command → Script Unit
  | 0, _, _ => throw (.died 9)
  | fuel + 1, mode, c => do
    runTraps launch fuel
    if (← get).has 'n' then return
    let inner : Mode := { mode with last := false }
    let looked : Mode := { tested := true }
    match c with
    | .simple line assignments words rs =>
      modify fun s => { s with line }
      simple launch fuel mode assignments words rs
      strict mode
    | .redirected line body rs =>
      modify fun s => { s with line }
      let cs ← connections launch fuel rs
      keepingStreams do
        if ← attempt (connectAll launch fuel true cs) then run launch fuel inner body
        else strict mode
    | .subshell line body rs =>
      modify fun s => { s with line }
      let cs ← connections launch fuel rs
      let work : Script Unit := do
        connectAll launch fuel false cs
        run launch fuel { mode with last := true } body
      if mode.last ∧ (← get).traps = [] then work
      else
        let (_, ending) ← split launch fuel work
        announce ending
        finish (statusOf ending)
        Signal.attend
      strict mode
    | .background body =>
      let (id, ending) ← split launch fuel do
        let n ← openFile { channel := .nothing }
        setStream 0 (some n)
        run launch fuel { last := true } body
      modify fun s =>
        { s with
          background := some id
          jobs := (id, statusOf ending) :: s.jobs
          -- nobody has waited for it
          system := { s.system with living := id :: s.system.living } }
      finish 0
      Signal.attend
    | .pipe members =>
      pipe launch fuel { mode with last := true } none members
      Signal.attend
      strict mode
    | .sequence first second =>
      run launch fuel inner first
      run launch fuel mode second
    | .both first second =>
      run launch fuel looked first
      if (← get).status = 0 then run launch fuel mode second
    | .either first second =>
      run launch fuel looked first
      if (← get).status ≠ 0 then run launch fuel mode second
    | .negated body =>
      run launch fuel looked body
      finish (if (← get).status = 0 then 1 else 0)
    | .branch condition yes no =>
      run launch fuel looked condition
      if (← get).status = 0 then run launch fuel mode yes
      else match no with
        | some no => run launch fuel mode no
        | none => finish 0
    | .repeated untilSuccess condition body =>
      inLoop (repetition launch fuel inner untilSuccess condition body 0)
    | .forEach line name words body =>
      modify fun s => { s with line }
      let values := (← words.mapM (Expansion.fields (output launch fuel))).flatten
      if values = [] then finish 0
      else inLoop (turns name (run launch fuel inner body) values)
    | .choose line word alternatives =>
      modify fun s => { s with line }
      let subject ← Expansion.whole (output launch fuel) word
      choice launch fuel mode subject alternatives
    | .define _ name body =>
      modify fun s => { s with functions := s.functions.insert name body }
      finish 0
    runTraps launch fuel
    if mode.last then throw .quit

/-- Runs the commands for the signals that have arrived. -/
def runTraps (launch : Launcher) : (fuel : Nat) → Script Unit
  | 0 => return
  | fuel + 1 => do
    let s ← get
    match s.pending with
    | [] => return
    | signal :: rest =>
      set { s with pending := rest }
      match s.traps.lookup signal with
      | none | some [] => pure ()
      | some action =>
        script launch fuel {} { rest := charsOf action } false
        finish s.status
      runTraps launch fuel

def output (launch : Launcher) : (fuel : Nat) → Option Command → Script Bytes
  | 0, _ => throw (.died 9)
  | _, none => return []
  | fuel + 1, some c => do
    let n ← openFile { channel := .buffer [] }
    let (_, ending) ← split launch fuel do
      setStream 1 (some n)
      run launch fuel { last := true } c
    announce ending
    modify fun s => { s with substituted := statusOf ending }
    Signal.attend
    takeBuffer n

/-- Expands the targets of redirections, apart from texts that stand in the script. -/
def connections (launch : Launcher) : (fuel : Nat) → List Redirection → Script (List Connection)
  | 0, _ => throw (.died 9)
  | fuel + 1, rs =>
    rs.mapM fun
      | .redirect stream opening target => do
        let target ← Expansion.whole (output launch fuel) target
        if opening = .same ∧ (streamOf? target).isNone then
          modify fun s => { s with line := s.reached }
          fault (Bytes.ofString "Syntax error: Bad fd number")
        return ⟨stream, opening, target⟩

/-- Makes connections, in order. A text that stands in the script is expanded when its turn comes.
-/
def connectAll (launch : Launcher) : (fuel : Nat) → (kept : Bool) → List Connection → Script Unit
  | 0, _, _ => throw (.died 9)
  | fuel + 1, kept, cs =>
    cs.forM fun c => do
      match c.opening with
      | .document n =>
        let word := ((← get).documents[n]?).getD []
        connect kept { c with target := ← Expansion.whole (output launch fuel) word }
      | _ => connect kept c

/-- Brings a shell to its end. The command for the end of a script runs unless a signal ends it. -/
def conclude (launch : Launcher) : (fuel : Nat) → Script Unit → StateM Session Ending
  | 0, _ => return .signal 9
  | fuel + 1, work => do
    let ending : StateM Session Ending := return .exit ((← get).status % 256)
    match ← work.run with
    | .error (.died n) => return .signal n
    | _ =>
      let s ← get
      match s.traps.lookup 0 with
      | none | some [] => ending
      | some action =>
        set { s with traps := s.traps.filter (·.1 ≠ 0), loops := 0, locals := [] }
        match ← (script launch fuel {} { rest := charsOf action } false).run with
        | .error (.died n) => return .signal n
        | .error .quit | .error .fault => ending
        | _ => return .exit (s.status % 256)

/-- Does something in a shell of its own: its process and its end. -/
def split (launch : Launcher) : (fuel : Nat) → Script Unit → Script (Nat × Ending)
  | 0, _ => throw (.died 9)
  | fuel + 1, work => do
    let s ← get
    let (id, system) := s.system.start
    let child : Session :=
      { s with
        system
        process := { s.process with id, parent := s.process.id }
        traps := s.traps.filter (·.2 = [])
        pending := []
        jobs := [] }
    let (ending, child) := (conclude launch fuel work).run child
    set { s with system := child.system.reap id }
    return (id, ending)

/-- Runs the members of a pipeline, one after another: each reads what the one before it wrote. -/
def pipe (launch : Launcher) : (fuel : Nat) → Mode → (input : Option Nat) → List Command →
    Script Unit
  | 0, _, _, _ => throw (.died 9)
  | _, _, _, [] => finish 0
  | fuel + 1, mode, input, c :: rest => do
    let exit ← if rest.isEmpty then pure none
      else do pure (some (← openFile { channel := .buffer [] }))
    let (_, ending) ← split launch fuel do
      if input.isSome then setStream 0 input
      if exit.isSome then setStream 1 exit
      run launch fuel mode c
    if rest.isEmpty then
      announce ending
      finish (statusOf ending)
    else pipe launch fuel mode exit rest

/-- The turns of a loop with a condition; `status` is that of the turn before. -/
def repetition (launch : Launcher) : (fuel : Nat) → Mode → (untilSuccess : Bool) →
    (condition body : Command) → (status : Nat) → Script Unit
  | 0, _, _, _, _, _ => throw (.died 9)
  | fuel + 1, mode, untilSuccess, condition, body, status => do
    let ended ← turn do
      run launch fuel { tested := true } condition
      if ((← get).status = 0) = untilSuccess then return .over
      run launch fuel mode body
      return .next
    match ended with
    | .over => finish status
    | .left => return
    | .next => repetition launch fuel mode untilSuccess condition body (← get).status

/-- Runs the first alternative with a pattern for a text. -/
def choice (launch : Launcher) : (fuel : Nat) → Mode → (subject : Bytes) →
    List (List Word × Option Command) → Script Unit
  | 0, _, _, _ => throw (.died 9)
  | _, _, _, [] => finish 0
  | fuel + 1, mode, subject, (patterns, body) :: rest => do
    let fits ← patterns.foldlM
      (fun found w => do
        if found then return true
        else return Pattern.fits (← Expansion.pattern (output launch fuel) w) subject)
      false
    if fits then
      match body with
      | some c => run launch fuel mode c
      | none => finish 0
    else choice launch fuel mode subject rest

/-- Runs the commands of a text, as far as it can be read; `ran` tells whether some ran already. -/
def script (launch : Launcher) : (fuel : Nat) → Mode → Source → (ran : Bool) → Script Unit
  | 0, _, _, _ => throw (.died 9)
  | fuel + 1, mode, source, ran => do
    match Reader.next { source with documents := (← get).documents } with
    | .error f =>
      showRead source (dropLines (f.line + 1 - source.line) source.rest)
      modify fun s => { s with line := f.line }
      fault (Bytes.ofString ("Syntax error: " ++ f.message))
    | .ok (found, after) =>
      showRead source after.rest
      let source := after
      modify fun s => { s with documents := source.documents, reached := source.line }
      match found with
      | .nothing => if !ran then finish 0
      | .blank => script launch fuel mode source ran
      | .commands c isLast =>
        run launch fuel { mode with last := mode.last && isLast } c
        script launch fuel mode source true

def arguments (launch : Launcher) : (fuel : Nat) → List Word → Script (List Bytes)
  | 0, _ => throw (.died 9)
  | fuel + 1, words =>
    words.foldlM
      (fun (args : List Bytes) w => do
        match if args.head?.any Builtin.isDeclaration then Reader.assignment? w else none with
        | some (name, value) =>
          let value ← Expansion.whole (output launch fuel) value
          return args ++ [Bytes.ofString (name ++ "=") ++ value]
        | none => return args ++ (← Expansion.fields (output launch fuel) w))
      []

def simple (launch : Launcher) : (fuel : Nat) → Mode → List (String × Word) → List Word →
    List Redirection → Script Unit
  | 0, _, _, _, _ => throw (.died 9)
  | fuel + 1, mode, assignments, words, rs => do
    modify fun s => { s with substituted := 0 }
    let fields ← arguments launch fuel words
    let cs ← connections launch fuel rs
    let complaints := (← get).process.streams.lookup 2
    let values : Script (List (String × Bytes)) := assignments.mapM fun (name, w) => do
      return (name, ← Expansion.whole (output launch fuel) w)
    let settle : Script Unit := do
      -- each value may depend on those before it
      let values ← assignments.mapM fun (name, w) => do
        let value ← Expansion.whole (output launch fuel) w
        assign name value
        return (name, value)
      trace complaints values fields
    match order (← get) false fields with
    | .nothing =>
      keepingStreams do
        if ← attempt (connectAll launch fuel true cs) then
          settle
          finish (← get).substituted
    | .builtin true name args =>
      let work : Script Unit := do
        connectAll launch fuel true cs
        settle
        builtin launch fuel mode true name args
      if name = "exec" then work else keepingStreams work
    | .builtin false name args =>
      keepingStreams do
        if ← attempt (connectAll launch fuel true cs) then
          let values ← values
          lending values do
            trace complaints values fields
            builtin launch fuel mode false name args
    | .function body args =>
      keepingStreams do
        if ← attempt (connectAll launch fuel true cs) then
          let values ← values
          lending values do
            trace complaints values fields
            call launch fuel mode body args
    | .program name args =>
      keepingStreams do
        if ← attempt (connectAll launch fuel true cs) then
          let values ← values
          lending values do
            trace complaints values fields
            start launch false (mode.last && (← get).traps.isEmpty) name args

def call (launch : Launcher) : (fuel : Nat) → Mode → Command → List Bytes → Script Unit
  | 0, _, _, _ => throw (.died 9)
  | fuel + 1, mode, body, args => do
    let before ← get
    if before.locals.length = maxCalls then
      fault (Bytes.ofString s!"Maximum function recursion depth ({maxCalls}) reached")
    set { before with args, loops := 0, locals := [] :: before.locals, optionPlace := {} }
    let back : Script Unit := do
      restore (((← get).locals.head?).getD [])
      modify fun s =>
        { s with
          args := before.args
          loops := before.loops
          locals := before.locals
          optionPlace := before.optionPlace }
    tryCatch (run launch fuel { tested := mode.tested } body) fun
      | .back => return
      | jump => do
        back
        throw jump
    back

/-- Runs a command that the shell does itself. -/
def builtin (launch : Launcher) : (fuel : Nat) → Mode → (special : Bool) → String → List Bytes →
    Script Unit
  | 0, _, _, _, _ => throw (.died 9)
  | fuel + 1, mode, special, name, args => do
    let { speaker, reached, .. } ← get
    let work : Script Unit := do
      match Builtin.named? name with
      | some work => work args
      | none =>
        match name, args with
        | "eval", args =>
          let text := charsOf (Bytes.joinWith 32 args)
          script launch fuel { tested := mode.tested } { rest := text } false
        | ".", file :: _ =>
          let (path, text) ← readScript file
          modify fun s => { s with speaker := some path }
          tryCatch (script launch fuel {} { rest := charsOf text, isFile := true } false) fun
            | .back => return
            | jump => throw jump
        | "type", names => describeAll false names
        | "command", letters :: names =>
          describeAll (letters = Bytes.ofString "-v") (names.take 1)
        | "exec", program :: args => start launch true true program args
        | _, _ => finish 0
    modify fun s => { s with speaker := some (Bytes.ofString name) }
    ensuring (fun s => { s with speaker, reached }) do
      if special then work
      else if !(← attempt work) then finish 2

end

/-- How many commands may be nested or follow one another. -/
def maxSteps : Nat := 1000000

def runScript (launch : Launcher) (isLast : Bool) (text : Bytes) (s : Session) :
    Ending × Machine.System :=
  let source : Source := { rest := charsOf text, isFile := !isLast }
  let work := script launch maxSteps { last := isLast } source false
  let (ending, s) := (conclude launch maxSteps work).run s
  (ending, s.system)

end Groom.Shell.Eval
