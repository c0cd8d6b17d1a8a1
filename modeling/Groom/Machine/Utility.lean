import Groom.Machine.System

/-!
The small programs of the machine. Of their options they know the plainest.
-/
namespace Groom.Machine.Utility

/-- Writes to a stream of a process; what cannot be written is lost. -/
def write (p : Process) (s : System) (stream : Nat) (bytes : Bytes) : System :=
  match (p.streams.lookup stream).map fun n => s.write n bytes with
  | some (.ok s) => s
  | _ => s

def complain (p : Process) (s : System) (text : Bytes) : System := write p s 2 (text ++ [10])

def reason : IoError → Bytes
  | .os number => Bytes.ofString (IoError.describe number)
  | .other text => Bytes.ofString text

/-- A path in the quotation marks of complaints. -/
def quoted (bs : Bytes) : Bytes := Bytes.ofString "\x27" ++ bs ++ Bytes.ofString "\x27"

def files (p : Process) (s : System) : FileSystem := ⟨s.tree, p.cwd⟩

/-- Whether an argument is an option, and the arguments that are none. -/
def split (args : List Bytes) : List Bytes × List Bytes :=
  let isOption (bs : Bytes) : Bool := bs.head? = some (Bytes.ofChar '-') ∧ 1 < bs.length
  ((args.takeWhile isOption), args.dropWhile isOption)

/-- Whether a letter stands in one of some options. -/
def has (options : List Bytes) (letter : Char) : Bool :=
  options.any fun o => o.contains (Bytes.ofChar letter)

/-- The status of a program and the machine it leaves. -/
abbrev Done := Nat × System

/-- Acts on one path after another; the status tells whether something failed. -/
def each (act : System → Bytes → Except (System × Bytes) System) (p : Process) (s : System)
    (paths : List Bytes) : Done :=
  paths.foldl
    (fun (status, s) path =>
      match act s path with
      | .ok s => (status, s)
      | .error (s, text) => (1, complain p s text))
    (0, s)

def change (s : System) (text : Bytes) (changed : Except IoError FileSystem) :
    Except (System × Bytes) System :=
  match changed with
  | .ok fs => .ok { s with tree := fs.tree }
  | .error cause => .error (s, text ++ Bytes.ofString ": " ++ reason cause)

def printFiles (p : Process) (s : System) (args : List Bytes) : Done :=
  let paths := (split args).2
  let show_ (s : System) (path : Bytes) : Except (System × Bytes) System :=
    if path = Bytes.ofString "-" then
      match p.streams.lookup 0 with
      | none => .ok s
      | some n =>
        let bytes := (s.unread n).toOption.getD []
        .ok (write p (s.skip n bytes.length) 1 bytes)
    else match (files p s).read ⟨path⟩ with
      | .ok bytes => .ok (write p s 1 bytes)
      | .error cause =>
        .error (s, Bytes.ofString "cat: " ++ path ++ Bytes.ofString ": " ++ reason cause)
  each show_ p s (if paths = [] then [Bytes.ofString "-"] else paths)

/-- Removes files, and directories if that is asked for. -/
def removePaths (p : Process) (s : System) (args : List Bytes) : Done :=
  let (options, paths) := split args
  let act (s : System) (path : Bytes) : Except (System × Bytes) System :=
    let fs := files p s
    let text := Bytes.ofString "rm: cannot remove " ++ quoted path
    match fs.linkStatus ⟨path⟩ with
    | .error cause =>
      if has options 'f' ∧ (cause = .notFound ∨ cause = .notDirectory) then .ok s
      else .error (s, text ++ Bytes.ofString ": " ++ reason cause)
    | .ok node =>
      if node.isDirectory ∧ (has options 'r' ∨ has options 'R') then
        .ok { s with tree := (fs.removeAll ⟨path⟩).tree }
      else change s text (fs.removeFile ⟨path⟩)
  each act p s paths

/-- Creates directories, and those on the way to them if that is asked for. -/
def makeDirectories (p : Process) (s : System) (args : List Bytes) : Done :=
  let (options, paths) := split args
  let act (s : System) (path : Bytes) : Except (System × Bytes) System :=
    let fs := files p s
    change s (Bytes.ofString "mkdir: cannot create directory " ++ quoted path)
      (if has options 'p' then fs.makeDirectories ⟨path⟩ else fs.makeDirectory ⟨path⟩)
  each act p s paths

def touchFiles (p : Process) (s : System) (args : List Bytes) : Done :=
  let act (s : System) (path : Bytes) : Except (System × Bytes) System :=
    let fs := files p s
    if (fs.status ⟨path⟩).isOk then .ok s
    else change s (Bytes.ofString "touch: cannot touch " ++ quoted path) (fs.write ⟨path⟩ [])
  each act p s (split args).2

/-- Where a file goes: into a directory under its own name, or to a path. -/
def destination (fs : FileSystem) (source target : Bytes) : Path :=
  if fs.isDirectory ⟨target⟩ then (Path.mk target).join ⟨((Path.mk source).fileName?).getD []⟩
  else ⟨target⟩

/-- Copies files, and removes the sources if they are moved. -/
def transfer (name : String) (moved : Bool) (p : Process) (s : System) (args : List Bytes) :
    Done :=
  let paths := (split args).2
  let target := paths.getLast?.getD []
  let act (s : System) (source : Bytes) : Except (System × Bytes) System := do
    let fs := files p s
    let text := Bytes.ofString (name ++ ": cannot stat ") ++ quoted source
    match fs.read ⟨source⟩ with
    | .error cause => .error (s, text ++ Bytes.ofString ": " ++ reason cause)
    | .ok content =>
      let place := destination fs source target
      let text := Bytes.ofString (name ++ ": cannot create regular file ") ++ quoted place.bytes
      let runs := (Image.executable fs ⟨source⟩).isOk
      let s ← change s text (fs.write place content)
      let s ← if runs then change s text ((files p s).markExecutable place) else .ok s
      if moved then change s text ((files p s).removeFile ⟨source⟩) else .ok s
  if paths.length < 2 then (1, complain p s (Bytes.ofString (name ++ ": missing file operand")))
  else each act p s paths.dropLast

/-- Runs a program with other variables, or lists the variables. -/
def runWith (launch : Launcher) (args : List Bytes) (p : Process) (s : System) :
    Ending × System :=
  let isSetting (bs : Bytes) : Bool := bs.contains (Bytes.ofChar '=')
  let settings := (args.takeWhile isSetting).map fun bs =>
    let name := bs.takeWhile (· ≠ Bytes.ofChar '=')
    (Utf8.lossy name, bs.drop (name.length + 1))
  let environment := settings.foldl (fun vs e => vs.insert e.1 e.2) p.environment
  match args.dropWhile isSetting with
  | [] =>
    let lines := environment.entries.flatMap fun (name, value) =>
      Bytes.ofString (name ++ "=") ++ value ++ [10]
    (.exit 0, write p s 1 lines)
  | program :: args =>
    match Image.find (files p s) ((environment.get? "PATH").getD []) program args with
    | .ok image => launch image { p with environment } s
    | .error cause =>
      let text :=
        Bytes.ofString "env: \u2018" ++ program ++ Bytes.ofString "\u2019: " ++ reason cause
      (.exit (if cause = .notFound then 127 else 126), complain p s text)

def printArguments (p : Process) (s : System) (args : List Bytes) : Done :=
  let silent := args.head? = some (Bytes.ofString "-n")
  let text := Bytes.joinWith 32 (if silent then args.drop 1 else args)
  (0, write p s 1 (if silent then text else text ++ [10]))

def run (launch : Launcher) (u : Utility) (args : List Bytes) (p : Process) (s : System) :
    Ending × System :=
  let done (d : Done) : Ending × System := (.exit d.1, d.2)
  match u with
  | .succeed | .pause => (.exit 0, s)
  | .fail => (.exit 1, s)
  | .echo => done (printArguments p s args)
  | .cat => done (printFiles p s args)
  | .remove => done (removePaths p s args)
  | .makeDirectory => done (makeDirectories p s args)
  | .touch => done (touchFiles p s args)
  | .copy => done (transfer "cp" false p s args)
  | .move => done (transfer "mv" true p s args)
  | .environment => runWith launch args p s

end Groom.Machine.Utility
