import Groom.Shell.Session

/-!
Signals by their names, and sending them.
-/
namespace Groom.Shell.Signal

/-- The names of the signals, from number zero on; zero is the end of a script. -/
def names : List String :=
  ["EXIT", "HUP", "INT", "QUIT", "ILL", "TRAP", "ABRT", "BUS", "FPE", "KILL", "USR1", "SEGV",
    "USR2", "PIPE", "ALRM", "TERM", "STKFLT", "CHLD", "CONT", "STOP", "TSTP", "TTIN", "TTOU",
    "URG", "XCPU", "XFSZ", "VTALRM", "PROF", "WINCH", "IO", "PWR", "SYS"]

/-- The system's descriptions of the signals, from number one on. -/
def descriptions : List String :=
  ["Hangup", "Interrupt", "Quit", "Illegal instruction", "Trace/breakpoint trap", "Aborted",
    "Bus error", "Floating point exception", "Killed", "User defined signal 1",
    "Segmentation fault", "User defined signal 2", "Broken pipe", "Alarm clock", "Terminated",
    "Stack fault", "Child exited", "Continued", "Stopped (signal)", "Stopped",
    "Stopped (tty input)", "Stopped (tty output)", "Urgent I/O condition",
    "CPU time limit exceeded", "File size limit exceeded", "Virtual timer expired",
    "Profiling timer expired", "Window changed", "I/O possible", "Power failure",
    "Bad system call"]

def bound : Nat := 65

def nameOf (signal : Nat) : String := names[signal]?.getD (toString signal)

def describe (signal : Nat) : String :=
  if signal = 0 then "Unknown signal 0"
  else descriptions[signal - 1]?.getD s!"Real-time signal {signal - 34}"

/-- The signal with a name or number, not below `least`. -/
def ofText? (least : Nat) (bs : Bytes) : Option Nat :=
  let cs := charsOf bs
  if cs ≠ [] ∧ cs.all Char.isDigit then (String.ofList cs).toNat?.filter (· < bound)
  else
    let found := names.idxOf (String.ofList (cs.map Char.toUpper))
    if found < names.length ∧ least ≤ found then some found else none

/-- Lets the signals that have arrived take effect: one with a command waits for it to run, one
without ends the shell unless it is harmless. -/
def attend : Script Unit := do
  let s ← get
  let (arrived, system) := s.system.arrived s.process.id
  set { s with system }
  arrived.forM fun signal =>
    match s.traps.lookup signal with
    | some [] => pure ()
    | some _ => modify fun s => { s with pending := s.pending ++ [signal] }
    | none => if signal ∈ Machine.System.harmless then pure () else throw (.died signal)

/-- Sends a signal to a process; fails if there is none. -/
def send (signal : Nat) (target : Nat) : Script Bool := do
  let s ← get
  if target ∈ s.system.living ∨ target = Machine.System.userProcess then
    set { s with system := s.system.send target signal }
    attend
    return true
  else return false

end Groom.Shell.Signal
