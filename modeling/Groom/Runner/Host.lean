import Groom.Command

/-!
Running commands on a host, with the interrupt of the user in mind. The interrupt sets a flag that
is never cleared: once it is set no further command is started, and a command that was running
counts as interrupted whatever its own end was.
-/
namespace Groom

/-- How a running command ended. -/
inductive Ending where
  | exit (code : Nat)
  | signal (number : Nat)
  deriving DecidableEq, Repr

namespace Host

def interruptSignal : Nat := 2

/-- The status of a command that has ended. -/
def statusOf (interrupted : Bool) (ending : Ending) : Status :=
  if interrupted ∨ ending = .signal interruptSignal then .interrupted
  else match ending with
    | .exit 0 => .success
    | .exit code => .failed (some code)
    | .signal _ => .failed none

/-- What of the things a command shows comes to the terminal. -/
def visible (output : Output) (shown : List Shown) : List Shown :=
  match output with
  | .inherit => shown
  | .capture => shown.filter fun
    | .record _ | .killed _ => true
    | _ => false

/-- A command that was started and has ended: how, what it showed, the files it left, and whether an
interrupt arrived while it ran, or a signal that ends the program itself. -/
structure Finished (η : Type) where
  ending : Ending
  shown : List Shown
  interrupted : Bool
  killed : Bool
  host : η
  tree : Tree

/-- A host, and whether an interrupt was seen or the program itself has ended. -/
structure Watched (η : Type) where
  host : η
  interrupted : Bool := false
  killed : Bool := false

end Host

/-- A machine on which commands run. -/
structure Host (η : Type) where
  /-- Whether an interrupt has arrived since this was asked last. -/
  arrived : η → Bool × η
  /-- Runs a command to its end, unless it cannot be started. -/
  launch : Request → η → Tree → Except IoError (Host.Finished η)

def Host.runner {η : Type} (h : Host η) : Runner (Host.Watched η) := fun request w tree =>
  let (arrived, host) := h.arrived w.host
  let interrupted := w.interrupted || arrived
  -- after an interrupt, and after the end, nothing is started any more
  if interrupted || w.killed then
    ⟨.ok .interrupted, [], ⟨host, interrupted, w.killed⟩, tree⟩
  else
    match h.launch request host tree with
    | .error cause => ⟨.error cause, [], ⟨host, interrupted, false⟩, tree⟩
    | .ok f =>
      ⟨.ok (statusOf f.interrupted f.ending), visible request.output f.shown,
        ⟨f.host, f.interrupted, f.killed⟩, f.tree⟩

end Groom
