import Groom.Command
import Groom.Machine.Image
import Groom.Runner.Host
import Groom.StringMap

/-!
The state that all processes of a machine share: the files, what is open, what was shown on the
terminal, and the signals on their way. Processes run one after another: one that is started runs
to its end before the one that started it goes on.
-/
namespace Groom.Machine

/-- Where an open file leads. -/
inductive Channel where
  /-- The output of the terminal. -/
  | output
  /-- The terminal's stream of complaints. -/
  | complaint
  /-- Reads as empty and swallows everything. -/
  | nothing
  | file (loc : Location)
  | directory
  /-- A text kept by the machine; what is written is added to its end. -/
  | buffer (content : Bytes)
  deriving DecidableEq

/-- An open file. -/
structure Opened where
  channel : Channel
  /-- How much of it is behind the place of reading and writing. -/
  offset : Nat := 0
  /-- Whether everything is written to the end. -/
  append : Bool := false
  readable : Bool := true
  writable : Bool := true

/-- The state of the machine. -/
structure System where
  tree : Tree
  /-- All files that were opened so far. -/
  opened : Array Opened := #[]
  shown : Array Shown := #[]
  /-- The number of the process started last. -/
  lastProcess : Nat := 0
  /-- The processes that can be sent signals. -/
  living : List Nat := []
  /-- Signals that were sent and have not arrived, with the processes they are meant for. -/
  signals : List (Nat × Nat) := []
  /-- Whether the program that uses the machine was interrupted. -/
  interrupted : Bool := false
  /-- The signal that ended the program that uses the machine. -/
  killed : Option Nat := none

/-- A process: itself, the one that started it, and what it was given. -/
structure Process where
  id : Nat
  parent : Nat
  cwd : Working
  /-- The open files by the numbers under which the process knows them. -/
  streams : List (Nat × Nat)
  environment : StringMap Bytes

abbrev Launcher := Image → Process → System → Ending × System

namespace System

def userProcess : Nat := 1

def openFile (s : System) (o : Opened) : Nat × System :=
  (s.opened.size, { s with opened := s.opened.push o })

/-- A file with bytes written at an offset; a gap is filled with zeros. -/
def splice (content : Bytes) (offset : Nat) (bytes : Bytes) : Bytes :=
  content.take offset ++ List.replicate (offset - content.length) 0 ++ bytes ++
    content.drop (offset + bytes.length)

def write (s : System) (number : Nat) (bytes : Bytes) : Except IoError System :=
  match s.opened[number]? with
  | none => .error .badStream
  | some o =>
    if !o.writable then .error .badStream
    else match o.channel with
      | .output => .ok { s with shown := s.shown.push (.output bytes) }
      | .complaint => .ok { s with shown := s.shown.push (.complaint bytes) }
      | .nothing => .ok s
      | .directory => .error .badStream
      | .buffer content =>
        .ok { s with
          opened := s.opened.setIfInBounds number { o with channel := .buffer (content ++ bytes) } }
      | .file loc =>
        match s.tree.node? loc with
        | some (.file content executable) =>
          let offset := if o.append then content.length else o.offset
          .ok { s with
            tree := s.tree.put loc (.file (splice content offset bytes) executable)
            opened := s.opened.setIfInBounds number { o with offset := offset + bytes.length } }
        -- the file was removed; what is written to it goes with it
        | _ => .ok s

/-- What can still be read from an open file. -/
def unread (s : System) (number : Nat) : Except IoError Bytes :=
  match s.opened[number]? with
  | none => .error .badStream
  | some o =>
    if !o.readable then .error .badStream
    else match o.channel with
      | .output | .complaint | .nothing => .ok []
      | .directory => .error .isDirectory
      | .buffer content => .ok (content.drop o.offset)
      | .file loc =>
        match s.tree.node? loc with
        | some (.file content _) => .ok (content.drop o.offset)
        | _ => .ok []

def skip (s : System) (number count : Nat) : System :=
  { s with opened := s.opened.modify number fun o => { o with offset := o.offset + count } }

def start (s : System) : Nat × System :=
  let id := s.lastProcess + 1
  (id, { s with lastProcess := id, living := id :: s.living })

/-- Forgets a process that has ended and whose status was asked for. -/
def reap (s : System) (id : Nat) : System := { s with living := s.living.filter (· ≠ id) }

/-- The signals after which a process goes on that did not prepare for them. -/
def harmless : List Nat := [0, 17, 18, 23, 28]

/-- Sends a signal to a process. The program that uses the machine takes an interrupt down; any
other signal ends it. -/
def send (s : System) (process signal : Nat) : System :=
  if process = userProcess then
    if signal = Host.interruptSignal then
      { s with
        interrupted := true
        shown := s.shown.push (.record ⟨.debug, .interrupt, "Interrupt received"⟩) }
    else if signal ∈ harmless then s
    else { s with killed := s.killed.or (some signal), shown := s.shown.push (.killed signal) }
  else { s with signals := s.signals ++ [(process, signal)] }

/-- Takes the signals that have arrived at a process. -/
def arrived (s : System) (process : Nat) : List Nat × System :=
  ((s.signals.filter (·.1 = process)).map (·.2),
    { s with signals := s.signals.filter (·.1 ≠ process) })

end System

end Groom.Machine
