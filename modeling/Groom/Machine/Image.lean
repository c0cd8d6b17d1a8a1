import Groom.FileSystem

/-!
Programs in the tree of files. A file that may be executed holds machine code or names in its first
line the program that interprets it; a program is found by its path or in the directories of a
search path.
-/
namespace Groom.Machine

/-- Small programs that do one thing to files and texts. -/
inductive Utility where
  /-- Prints files one after another. -/
  | cat
  | copy
  | echo
  /-- Runs a program with other variables. -/
  | environment
  | fail
  | makeDirectory
  | move
  | pause
  | remove
  | succeed
  /-- Creates files that are missing. -/
  | touch
  deriving DecidableEq, Repr

/-- The programs of machine code. -/
inductive Native where
  | shell
  | utility (u : Utility)
  deriving DecidableEq, Repr

def Utility.named : List (Utility × String) :=
  [(.cat, "cat"), (.copy, "cp"), (.echo, "echo"), (.environment, "env"), (.fail, "false"),
    (.makeDirectory, "mkdir"), (.move, "mv"), (.pause, "sleep"), (.remove, "rm"),
    (.succeed, "true"), (.touch, "touch")]

namespace Native

/-- All programs of machine code by their names. -/
def named : List (Native × String) :=
  [(.shell, "sh"), (.shell, "dash")] ++ Utility.named.map fun e => (.utility e.1, e.2)

/-- The content of the file of a program with a name. -/
def code (name : String) : Bytes := Bytes.ofString ("\x7fELF" ++ name)

def ofCode? (content : Bytes) : Option Native :=
  (named.find? fun e => code e.2 = content).map (·.1)

def directories : List Path := [.ofString "/bin", .ofString "/usr/bin"]

def install (fs : FileSystem) : Except IoError FileSystem :=
  directories.foldlM
    (fun fs dir => do
      named.foldlM
        (fun fs e => do
          let p := dir.join (.ofString e.2)
          (← fs.write p (code e.2)).markExecutable p)
        (← fs.makeDirectories dir))
    fs

end Native

/-- A program that is ready to run, with all its arguments; the first one is its own name. -/
structure Image where
  native : Native
  args : List Bytes
  deriving DecidableEq, Repr

namespace Image

/-- How many bytes at the start of a file are looked at. -/
def headerSize : Nat := 256

def maxScripts : Nat := 5

/-- Whether a byte separates the words of a first line. -/
def isBlank (b : UInt8) : Bool := b = Bytes.ofChar ' ' ∨ b = Bytes.ofChar '\t'

/-- Whether a byte ends the path of an interpreter. -/
def endsPath (b : UInt8) : Bool := isBlank b ∨ b = 0

/-- The interpreter that a file names in its first line, with the argument for it, if there is one.
The bytes looked at are filled up with zeros; a line that does not end within them counts only if
the path of the interpreter does. -/
def interpreter? (content : Bytes) : Option (Path × List Bytes) :=
  match (content ++ List.replicate headerSize 0).take headerSize with
  | a :: b :: rest =>
    let line :=
      if 10 ∈ rest then some (rest.takeWhile (· ≠ 10))
      else if (rest.dropWhile isBlank).any endsPath then some rest.dropLast
      else none
    let trimmed := line.map fun line => (line.reverse.dropWhile isBlank).reverse.dropWhile isBlank
    match if [a, b] = Bytes.ofString "#!" then trimmed else none with
    | none | some [] => none
    | some line =>
      let arguments := match line.dropWhile (!endsPath ·) with
        | [] => []
        | sep :: rest =>
          if sep = 0 then [] else [(rest.dropWhile isBlank).takeWhile (· ≠ 0)]
      some (⟨line.takeWhile (!endsPath ·)⟩, arguments)
  | _ => none

/-- The content of a file that may be executed. -/
def executable (fs : FileSystem) (p : Path) : Except IoError Bytes :=
  match fs.status p with
  | .ok (.file content true) => .ok content
  | .ok _ => .error .permissionDenied
  | .error cause => .error cause

/-- Makes the program at a path ready to run. An interpreter gets the path of the script in place of
the script's own name; at most `scripts` interpreters may be scripts themselves. -/
def load (fs : FileSystem) : (scripts : Nat) → Path → List Bytes → Except IoError Image
  | scripts, p, args => do
    let content ← executable fs p
    match Native.ofCode? content, interpreter? content with
    | some native, _ => return ⟨native, args⟩
    | none, none => throw .notExecutable
    | none, some (program, extra) =>
      match scripts with
      | 0 =>
        let _ ← executable fs program
        throw .tooManyLinks
      | scripts + 1 => load fs scripts program (program.bytes :: extra ++ p.bytes :: args.tail)

/-- The directories of a search path; an empty stretch stands for the working directory. -/
def directories (searchPath : Bytes) : List Path :=
  (Bytes.splitOn (Bytes.ofChar ':') searchPath).map Path.mk

/-- The path of a program in a directory of a search path. -/
def within (dir : Path) (program : Bytes) : Path :=
  if dir.bytes = [] then ⟨program⟩ else ⟨dir.bytes ++ Bytes.slash :: program⟩

/-- Makes ready the first program that can be run of those at some paths. Paths that lead nowhere
are passed over; that a file may not be executed is remembered. -/
def loadFirst (fs : FileSystem) (args : List Bytes) (fault : IoError) :
    List Path → Except IoError Image
  | [] => .error fault
  | p :: rest =>
    match load fs maxScripts p args with
    | .ok image => .ok image
    | .error cause =>
      if cause = .permissionDenied then loadFirst fs args cause rest
      else if cause = .notFound ∨ cause = .notDirectory then
        loadFirst fs args (if fault = .permissionDenied then fault else cause) rest
      else .error cause

/-- Makes a program ready to run. A path with a slash is taken as it is. -/
def find (fs : FileSystem) (searchPath program : Bytes) (args : List Bytes) :
    Except IoError Image :=
  if program = [] then .error .notFound
  else if Bytes.slash ∈ program then load fs maxScripts ⟨program⟩ (program :: args)
  else if program.length > Resolution.maxName then .error .nameTooLong
  else
    loadFirst fs (program :: args) .notFound
      ((directories searchPath).map fun dir => within dir program)

end Image

end Groom.Machine
