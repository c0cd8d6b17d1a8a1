import Groom.Shell.Session

/-!
The streams of a script: opening files for them, and reading lines from them.
-/
namespace Groom.Shell

/-- A redirection whose target is expanded; that of a text in the script is the text itself. -/
structure Connection where
  stream : Nat
  opening : Opening
  target : Bytes

/-- Lets a stream lead to an open file, or closes it. -/
def setStream (stream : Nat) (opened : Option Nat) : Script Unit :=
  modify fun s =>
    let others := s.process.streams.filter (·.1 ≠ stream)
    let streams := (opened.map (stream, ·)).toList ++ others
    { s with process := { s.process with streams } }

def openFile (o : Machine.Opened) : Script Nat :=
  modifyGet fun s =>
    let (n, system) := s.system.openFile o
    (n, { s with system })

def openingFault {α : Type} (verb absent : String) (target : Bytes) (cause : IoError) : Script α :=
  let reason := match cause with
    | .os number => if number = 2 ∨ number = 20 then absent else IoError.describe number
    | .other text => text
  fault (Bytes.ofString (verb ++ " ") ++ target ++ Bytes.ofString (": " ++ reason))

def openForReading (target : Bytes) : Script Nat := do
  match (← get).files.resolve .follow ⟨target⟩ with
  | .ok (.entry loc (.file ..)) => openFile { channel := .file loc, writable := false }
  | .ok (.entry _ .device) => openFile { channel := .nothing, writable := false }
  | .ok (.absent ..) => openingFault "cannot open" "No such file" target .notFound
  | .ok _ => openFile { channel := .directory, writable := false }
  | .error cause => openingFault "cannot open" "No such file" target cause

/-- Opens a path for writing; a missing file is created. -/
def openForWriting (opening : Opening) (target : Bytes) : Script Nat := do
  let s ← get
  let refuse {α : Type} (cause : IoError) : Script α :=
    openingFault "cannot create" "Directory nonexistent" target cause
  if opening = .truncate ∧ s.has 'C' ∧ s.files.isFile ⟨target⟩ then refuse .alreadyExists
  else
    let keeps := opening = .append ∨ opening = .update
    let content := if keeps then (s.files.read ⟨target⟩).toOption.getD [] else []
    match s.files.write ⟨target⟩ content with
    | .error cause => refuse cause
    | .ok files =>
      set { s with system := { s.system with tree := files.tree } }
      match files.resolve .create ⟨target⟩ with
      | .ok (.entry _ .device) =>
        openFile { channel := .nothing, readable := opening = .update }
      | .ok (.entry loc _) =>
        openFile
          { channel := .file loc, append := opening = .append, readable := opening = .update }
      | .ok _ => refuse .notFound
      | .error cause => refuse cause

/-- The stream that stands in the directory of devices under a path. -/
def device? (target : Bytes) : Option Nat :=
  match String.ofList (charsOf target) with
  | "/dev/stdin" => some 0
  | "/dev/stdout" => some 1
  | "/dev/stderr" => some 2
  | text =>
    if "/dev/fd/".toList.isPrefixOf text.toList then
      (String.ofList (text.toList.drop 8)).toNat?
    else none

/-- The stream that the target of a redirection names by its digit; a dash names none. -/
def streamOf? (target : Bytes) : Option (Option Nat) :=
  match charsOf target with
  | ['-'] => some none
  | [d] => if d.isDigit then some (some (d.toNat - 48)) else none
  | _ => none

/-- Makes one connection. If the streams are kept to be given back, the stream is already closed
when its new target turns out to be missing, so that no complaint about that is seen on it. -/
def connect (kept : Bool) (c : Connection) : Script Unit := do
  let s ← get
  match c.opening with
  | .document _ =>
    let n ← openFile { channel := .buffer c.target, writable := false }
    setStream c.stream (some n)
  | .same =>
    match streamOf? c.target with
    | none | some none => setStream c.stream none
    | some (some source) =>
      if source ≠ c.stream then
        match s.process.streams.lookup source with
        | some n => setStream c.stream (some n)
        | none =>
          if kept then setStream c.stream none
          fault (ofNat source ++ Bytes.ofString ": Bad file descriptor")
  | opening =>
    match (device? c.target).map fun d => s.process.streams.lookup d with
    | some (some n) => setStream c.stream (some n)
    | some none => openingFault "cannot open" "No such file" c.target .notFound
    | none =>
      let n ← match opening with
        | .read => openForReading c.target
        | opening => openForWriting opening c.target
      setStream c.stream (some n)

/-- Does something and lets the streams lead where they led before. -/
def keepingStreams {α : Type} (work : Script α) : Script α := do
  let streams := (← get).process.streams
  let back : Script Unit :=
    modify fun s => { s with process := { s.process with streams } }
  let found ← tryCatch work fun jump => do
    back
    throw jump
  back
  return found

/-- A line that was read: its bytes, each with whether a backslash took away its meaning, how much
of the text it takes, and whether the line ended. -/
structure Line where
  bytes : List (UInt8 × Bool)
  size : Nat
  ended : Bool

/-- Splits off a line. Unless it is `raw`, a backslash takes away the meaning of what follows, and a
line end after one is dropped. -/
def lineOf (raw : Bool) : Bytes → Line
  | [] => ⟨[], 0, false⟩
  | 10 :: _ => ⟨[], 1, true⟩
  | [b] => if b = 92 ∧ !raw then ⟨[], 1, false⟩ else ⟨if b = 0 then [] else [(b, false)], 1, false⟩
  | b :: c :: rest =>
    if b = 92 ∧ !raw then
      let line := lineOf raw rest
      ⟨if c = 10 ∨ c = 0 then line.bytes else (c, true) :: line.bytes, line.size + 2, line.ended⟩
    else
      let line := lineOf raw (c :: rest)
      ⟨if b = 0 then line.bytes else (b, false) :: line.bytes, line.size + 1, line.ended⟩

/-- Reads a line from the input; fails if the input cannot be read. -/
def readLine (raw : Bool) : Script (Option Line) := do
  let s ← get
  match s.process.streams.lookup 0 with
  | none => return none
  | some n =>
    match s.system.unread n with
    | .error _ => return none
    | .ok bytes =>
      let line := lineOf raw bytes
      set { s with system := s.system.skip n line.size }
      return some line

end Groom.Shell
