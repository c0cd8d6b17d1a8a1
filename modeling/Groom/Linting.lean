import Groom.Invocation
import Groom.Walk

/-!
Checking files: a tool looks at every file of a batch, or once at a whole tree, and changes nothing
by itself.
-/
namespace Groom

/-- What checking a batch of files found. -/
structure LintReport where
  checked : List Path := []
  failed : List Path := []
  deriving DecidableEq, Repr

namespace Linting

variable {σ : Type}

/-- The name of the database that tells a checker how each file is compiled. -/
def compileCommands : String := "compile_commands.json"

/-- The one file of a name below `root`. -/
def findUnique (s : Setting σ) (root : Path) (name : String) : Run σ Path := do
  let found ← (Walk.targets s root (.names [name])).toList
  Run.note (.searched name found)
  match found with
  | [] => throw (.configuration (.notFound name))
  | [path] => return path
  | candidates =>
    candidates.forM fun c => Run.log .debug .lint s!"Candidate {name}: {c.display}"
    throw (.configuration (.multiple name candidates))

/-- The pieces of the line that announces the check of a file. -/
def line (path : Path) : List String := "Checking " :: path.displayPieces ++ [" ..."]

/-- The status of a tool on one file of a batch. Where the batch goes on after failures, a tool that
cannot be started has failed. -/
def attempt (s : Setting σ) (tool : Tool) (policy : FailurePolicy) (path file : Path) :
    Run σ Status :=
  match policy with
  | .abort => tool.invoke s file
  | .continue =>
    tryCatch (tool.invoke s file) fun e => do
      Run.log .warn .lint s!"{path.display}: {e.message}"
      return .failed none

/-- Checks one file and adds it to a report. -/
def checkOne (s : Setting σ) (tool : Tool) (policy : FailurePolicy) (r : LintReport) (file : Path) :
    Run σ LintReport := do
  let path := (← Run.files s).absolute file
  Run.writeLine s (line path)
  match ← attempt s tool policy path file with
  | .success => return { r with checked := r.checked ++ [path] }
  | .interrupted => throw .interrupted
  | .failed code =>
    match policy with
    | .abort => throw (.toolInvocation tool.name (.failed code))
    -- the file is checked, and the failure is kept for the end of the batch
    | .continue =>
      Run.log .warn .lint
        s!"{tool.name} failed on {path.display} ({(Status.failed code).text})"
      return ⟨r.checked ++ [path], r.failed ++ [path]⟩

def checkBatch (s : Setting σ) (tool : Tool) (policy : FailurePolicy) (files : Flow (Run σ) Path) :
    Run σ LintReport := do
  let r ← files.foldM (checkOne s tool policy) {}
  if r.failed = [] then return r else throw (.checksFailed r.failed)

/-- Asks whether a tool is there and sets it to work once on a whole tree. -/
def analyzeTree (s : Setting σ) (tool : Tool) (root : Path) : Run σ Unit := do
  tool.ensureAvailable s
  tool.invokeChecked s root

end Linting

end Groom
