import Groom.Shell.Eval

/-!
The shell as a program: what it makes of its arguments and of what it is given by the process that
starts it.
-/
namespace Groom.Shell.Startup

open Machine (Image Launcher Process System)

/-- The variables that are set before a script begins, as far as the script was not given others. -/
def defaults : List (String × Variable) :=
  [("PATH", ⟨some (Bytes.ofString
      "/usr/local/sbin:/usr/local/bin:/usr/sbin:/usr/bin:/sbin:/bin"), false, false⟩),
    ("PS1", ⟨some (Bytes.ofString "# "), false, false⟩),
    ("PS2", ⟨some (Bytes.ofString "> "), false, false⟩),
    ("PS4", ⟨some (Bytes.ofString "+ "), false, false⟩)]

/-- The variables of a script at its start, apart from the working directory. -/
def initial (p : Process) : StringMap Variable :=
  let given := p.environment.entries.filterMap fun (name, value) =>
    if isName name.toList then some (name, (⟨some value, true, false⟩ : Variable)) else none
  .ofList (defaults ++ given ++
    [("IFS", ⟨some [32, 9, 10], false, false⟩), ("OPTIND", ⟨some (ofNat 1), false, false⟩),
      ("PPID", ⟨some (ofNat p.parent), false, false⟩)])

/-- The session of a shell at its start. -/
def session (p : Process) (s : System) (name : Bytes) : Session where
  system := s
  process := p
  mainProcess := p.id
  name := name
  args := []
  vars := initial p

/-- Finds out the working directory. The path that is given is kept if it leads there. -/
def findWorking : Script Unit := do
  let s ← get
  let given := (s.value? "PWD").filter fun path =>
    (Path.mk path).isAbsolute && match s.files.resolve .follow ⟨path⟩ with
      | .ok (.entry loc (.directory _)) => s.files.here? = some (FileSystem.pathOf loc)
      | _ => false
  match given.or (s.files.here?.map (·.bytes)) with
  | some path => setVariable "PWD" ⟨some path, true, false⟩
  | none =>
    let _ ← write 2 (Bytes.ofString "sh: 0: getcwd() failed: No such file or directory\n")
    setVariable "PWD" ⟨some [], true, false⟩

/-- The arguments of the shell after its options. -/
structure Arguments where
  /-- Whether the first of the arguments is the text of a script. -/
  text : Bool := false
  rest : List Bytes

def readOptions : (text : Bool) → List Bytes → Script Arguments
  | text, [] => return ⟨text, []⟩
  | text, arg :: rest => do
    let set (on : Bool) (letters : List Char) : Script Unit :=
      Builtin.setLetters on (letters.filter fun c => !(on && (c = 'c' ∨ c = 'l')))
    match charsOf arg with
    | ['-'] | ['-', '-'] => return ⟨text, rest⟩
    | '-' :: letters =>
      set true letters
      if letters.contains 'o' then
        match rest with
        | [] => return ⟨text, []⟩
        | name :: rest =>
          match optionNames.find? fun e => e.2 = Builtin.text name with
          | some (c, _) => setOption c true
          | none => fault (Bytes.ofString "Illegal option -o " ++ name)
          readOptions (text || letters.contains 'c') rest
      else readOptions (text || letters.contains 'c') rest
    | '+' :: letters =>
      set false letters
      readOptions text rest
    | _ => return ⟨text, arg :: rest⟩

/-- A script that the shell is to run: its text, and whether nothing is read after it. -/
structure Job where
  text : Bytes
  isLast : Bool

/-- Finds the script to run: a text among the arguments, a file, or else the input. -/
def job (args : List Bytes) : Script Job := do
  findWorking
  modify fun s => { s with line := 0 }
  let found ← readOptions false args
  let named (name : Bytes) (args : List Bytes) : Script Unit :=
    modify fun s => { s with name, args }
  let fromInput := (← get).has 's'
  match found.text, found.rest with
  | true, [] => fault (Bytes.ofString "-c requires an argument")
  | true, text :: rest =>
    match rest with
    | [] => pure ()
    | name :: args => named name args
    return ⟨text, true⟩
  | false, rest =>
    match if fromInput then [] else rest with
    | file :: args =>
      match (← get).files.read ⟨file⟩ with
      | .ok text =>
        named file args
        return ⟨text, false⟩
      | .error cause =>
        if cause = .isDirectory then
          named file args
          return ⟨[], false⟩
        else openingFault "cannot open" "No such file" file cause
    | [] =>
      let s ← get
      let input := s.process.streams.lookup 0
      let text := (input.bind fun n => (s.system.unread n).toOption).getD []
      -- nothing of it is left for the commands of the script
      set { s with args := rest, system := s.system.skip (input.getD 0) text.length }
      return ⟨text, false⟩

def run (launch : Launcher) (args : List Bytes) (p : Process) (s : System) : Ending × System :=
  match (job args.tail).run (session p s (args.head?.getD [])) with
  | (.error (.died n), s) => (.signal n, s.system)
  | (.error _, s) => (.exit (s.status % 256), s.system)
  | (.ok j, s) => Eval.runScript launch j.isLast j.text s

end Groom.Shell.Startup
