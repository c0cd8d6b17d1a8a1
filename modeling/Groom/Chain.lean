import Groom.Step

/-!
Chains of tasks: each is run after the one before it has succeeded, and the first failure ends the
chain.
-/
namespace Groom

/-- A named piece of work that ends in a report. -/
structure Task (σ : Type) where
  name : String
  run : Run σ StepReport

variable {σ : Type}

def Step.task (s : Setting σ) (step : Step) : Task σ := ⟨step.name, step.run s⟩

namespace Chain

def runTask (task : Task σ) : Run σ StepReport := do
  Run.log .debug .chain s!"Running step '{task.name}'"
  -- an error is only talked about here; it still ends the chain
  tryCatch task.run fun e => do
    Run.log .debug .chain s!"Step '{task.name}' failed: {e.message}"
    throw e

def run (tasks : List (Task σ)) : Run σ (List StepReport) := tasks.mapM runTask

def runSteps (s : Setting σ) (steps : List Step) : Run σ (List StepReport) :=
  run (steps.map (·.task s))

end Chain

end Groom
