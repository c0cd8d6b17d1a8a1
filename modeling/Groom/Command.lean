import Groom.IoError
import Groom.Log
import Groom.Path
import Groom.Tree

/-!
External commands, as the library sees them: a request, a status, and a runner that answers
requests. A runner is any function of its own state and the tree of files; both may change with
every call.
-/
namespace Groom

/-- What becomes of the output of a command. -/
inductive Output where
  /-- It is taken in and dropped. -/
  | capture
  /-- It goes to the terminal. -/
  | inherit
  deriving DecidableEq, Repr

/-- A command to be run. -/
structure Request where
  program : Path
  args : List Bytes
  output : Output
  deriving DecidableEq, Repr

/-- How a command finished. -/
inductive Status where
  | success
  /-- It ended with this exit code, or was ended by a signal other than an interrupt. -/
  | failed (code : Option Int)
  | interrupted
  deriving DecidableEq, Repr

def Status.text : Status → String
  | .success => "success"
  | .failed (some code) => s!"exit code {code}"
  | .failed none => "terminated by signal"
  | .interrupted => "interrupted"

/-- What comes to the terminal while a command runs. -/
inductive Shown where
  | output (bytes : Bytes)
  | complaint (bytes : Bytes)
  | record (record : Log.Record)
  /-- A signal ends the program itself; what follows comes from the command alone. -/
  | killed (signal : Nat)
  deriving DecidableEq, Repr

/-- The answer to a request: the status, unless the command could not be started, what was shown
meanwhile, and the state and the tree that the command leaves. -/
structure Reply (σ : Type) where
  answer : Except IoError Status
  shown : List Shown
  state : σ
  tree : Tree

abbrev Runner (σ : Type) := Request → σ → Tree → Reply σ

end Groom
