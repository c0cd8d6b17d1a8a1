import Groom.CommandLine.Program
import Groom.Proofs.Composition
import Groom.Proofs.Reported
import Groom.Proofs.Text
import Groom.Runner.Stub

/-! How the program ends: its exit code, and what stands last in its own output. That is the text
which the steps wrote, and after it at most one record, on the error that stopped them. -/
namespace Groom

variable {σ α : Type}

/-- The files that a step reports as changed. -/
def StepReport.changed : StepReport → List Path
  | .formatted report => report.changed
  | .linted _ | .analyzed => []

open Formatting (announcement)

namespace Chain

end Chain

namespace CommandLine

variable {s : Setting σ} {env : Machine.Environment} {given : Option Path} {order : Order}
  {root : Path} {c : ProjectConfig} {w : World σ}

/-- What is logged before the steps of an order are run: the layout, and the tools that it names. -/
def opening (fs : FileSystem) (root : Path) (c : ProjectConfig) : List Event :=
  .logged (ProjectConfig.notice fs root) :: (Registry.notices c.tools).map .logged

/-- The steps of an order are run after the layout was loaded. -/
def chain (s : Setting σ) (order : Order) (c : ProjectConfig) : Run σ (List StepReport) :=
  Chain.runSteps s (order.steps c (Registry.ofPaths c.tools))

namespace Shortage

/-- A project with one file of C, and with these files besides. -/
def start (others : List (Name × Node)) : Start where
  files := ⟨⟨[(⟨[112], by decide⟩, .directory ((⟨[115, 114, 99], by decide⟩,
    .directory [(⟨[97, 46, 99], by decide⟩, .file [120] false)]) :: others))], []⟩,
    ⟨[⟨[112], by decide⟩], 0⟩⟩
  env := {}
  args := [Bytes.ofString "format"]

/-- A tool changes the file of C, and the last formatter is not there. -/
def runner : Runner (List Stub.Call) :=
  Stub.runner (start []).files.cwd
    { missing := ["yapf"], byFile := .ofList [("a.c", .append "!")] }

end Shortage

end CommandLine

end Groom
