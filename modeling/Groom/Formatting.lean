import Groom.Flow
import Groom.Invocation

/-!
Formatting files: tools change a file in place, and the file counts as changed if its bytes after
the last tool differ from those before the first.
-/
namespace Groom

/-- Whether formatting made a difference. -/
inductive Change where
  | changed
  | unchanged
  deriving DecidableEq, Repr

def Change.name : Change → String
  | .changed => "Changed"
  | .unchanged => "Unchanged"

/-- What formatting did to one file. -/
structure FileOutcome where
  path : Path
  change : Change
  deriving DecidableEq, Repr

/-- What formatting did to a batch of files. -/
structure FormatReport where
  processed : List Path := []
  changed : List Path := []
  deriving DecidableEq, Repr

namespace FormatReport

/-- The report with one more file in it. -/
def add (r : FormatReport) (o : FileOutcome) : FormatReport where
  processed := r.processed ++ [o.path]
  changed := if o.change = .changed then r.changed ++ [o.path] else r.changed

end FormatReport

namespace Formatting

variable {σ : Type}

/-- The pieces of the line that reports a changed file. -/
def line (path : Path) : List String := "Formatted: " :: path.displayPieces

/-- Runs all passes on a file, in order, and compares its content before and after. -/
def processOne (s : Setting σ) (passes : List Tool) (file : Path) : Run σ FileOutcome := do
  let before ← Run.capture s file
  passes.forM fun pass => pass.invokeChecked s file
  let after ← Run.capture s file
  -- rewrites that cancel one another out are no change
  let change : Change := if before = after then .unchanged else .changed
  Run.log .debug .processing s!"{file.display}: {change.name}"
  return ⟨(← Run.files s).absolute file, change⟩

/-- Adds one outcome to a report; a changed file gets a line. -/
def record (s : Setting σ) (r : FormatReport) (o : FileOutcome) : Run σ FormatReport := do
  if o.change = .changed then Run.writeLine s (line o.path)
  return r.add o

/-- Reports outcomes as they arrive. The first error ends the batch, and lines already written stay.
-/
def report (s : Setting σ) (outcomes : Flow (Run σ) FileOutcome) : Run σ FormatReport :=
  outcomes.foldM (record s) {}

end Formatting

end Groom
