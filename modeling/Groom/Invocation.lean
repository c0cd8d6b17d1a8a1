import Groom.Run
import Groom.Tool

/-!
Running tools: asking whether a tool is there, and setting it to work on a target.
-/
namespace Groom.Tool

variable {σ : Type}

/-- Asks whether the tool is there. Its output is dropped. -/
def ensureAvailable (s : Setting σ) (t : Tool) : Run σ Unit := do
  Run.log .debug .processing s!"Probing: {t.commandLine t.probe}"
  match ← Run.call s ⟨t.program, t.probe, .capture⟩ with
  | .ok .success => return
  -- an interrupt says nothing about the tool
  | .ok .interrupted => throw .interrupted
  | .ok status =>
    Run.log .debug .processing s!"Probe for '{t.name}' failed: {status.text}"
    throw (.toolMissing t.name)
  | .error cause =>
    Run.log .debug .processing s!"Probe for '{t.name}' could not start: {cause.message}"
    throw (.toolMissing t.name)

/-- Sets the tool to work on a target. Its output goes to the terminal. -/
def invoke (s : Setting σ) (t : Tool) (target : Path) : Run σ Status := do
  Run.log .debug .processing s!"Running: {t.commandLine (t.invocationFor target)}"
  match ← Run.call s ⟨t.program, t.invocationFor target, .inherit⟩ with
  | .ok status =>
    Run.log .trace .processing s!"'{t.name}' finished: {status.text}"
    return status
  | .error cause => throw (.io t.program cause)

/-- Sets the tool to work on a target; anything but success is an error. -/
def invokeChecked (s : Setting σ) (t : Tool) (target : Path) : Run σ Unit := do
  match ← t.invoke s target with
  | .success => return
  | .interrupted => throw .interrupted
  | .failed code => throw (.toolInvocation t.name (.failed code))

end Groom.Tool
