import Groom.Formatting
import Groom.Linting

/-!
Steps: the units of work of a run. A step formats the files of a tree, checks them one by one, or
has the whole tree analysed.
-/
namespace Groom

/-- What a successful step did. -/
inductive StepReport where
  | formatted (report : FormatReport)
  | linted (report : LintReport)
  | analyzed
  deriving DecidableEq, Repr

/-- Formats the selected files of a tree in place. -/
structure FormatStep where
  name : String
  root : Path
  selection : Selection
  /-- The tools that have to be there before a file is touched, in the order they are asked. -/
  probes : List Tool
  /-- The tools that are run on each file, in order. -/
  passes : List Tool
  deriving DecidableEq, Repr

/-- Checks the selected files of a tree with the help of a compilation database. -/
structure LintStep where
  name : String
  /-- Where the database is searched. -/
  searchRoot : Path
  /-- Where the files are. -/
  sourceDir : Path
  selection : Selection
  tool : Tool
  /-- The arguments in front of those that name the database. -/
  extraArgs : List String
  policy : FailurePolicy
  deriving DecidableEq, Repr

/-- Has a whole tree analysed. -/
structure AnalyzeStep where
  name : String
  root : Path
  tool : Tool
  deriving DecidableEq, Repr

variable {σ : Type}

namespace FormatStep

def run (s : Setting σ) (step : FormatStep) : Run σ StepReport := do
  step.probes.forM (·.ensureAvailable s)
  Run.log .debug .steps s!"{step.name}: walking {step.root.display}"
  let outcomes :=
    (Walk.targets s step.root step.selection).mapM (Formatting.processOne s step.passes)
  return .formatted (← Formatting.report s outcomes)

end FormatStep

namespace LintStep

/-- The tool with the arguments for a database in a directory. -/
def invocation (step : LintStep) (databaseDir : Path) : Tool :=
  step.tool.withInvocation <|
    step.extraArgs.map Arg.ofString ++ [.ofString "-p", .literal databaseDir.bytes, .target]

def run (s : Setting σ) (step : LintStep) : Run σ StepReport := do
  step.tool.ensureAvailable s
  let database ← Linting.findUnique s step.searchRoot Linting.compileCommands
  let databaseDir := database.parent?.getD step.searchRoot
  Run.log .debug .steps s!"{step.name}: using {database.display}"
  let files := Walk.targets s step.sourceDir step.selection
  return .linted (← Linting.checkBatch s (step.invocation databaseDir) step.policy files)

end LintStep

namespace AnalyzeStep

def run (s : Setting σ) (step : AnalyzeStep) : Run σ StepReport := do
  Linting.analyzeTree s step.tool step.root
  return .analyzed

end AnalyzeStep

/-- A unit of work. -/
inductive Step where
  | format (step : FormatStep)
  | lint (step : LintStep)
  | analyze (step : AnalyzeStep)
  deriving DecidableEq, Repr

namespace Step

def name : Step → String
  | .format step => step.name
  | .lint step => step.name
  | .analyze step => step.name

def run (s : Setting σ) : Step → Run σ StepReport
  | .format step => step.run s
  | .lint step => step.run s
  | .analyze step => step.run s

end Step

end Groom
