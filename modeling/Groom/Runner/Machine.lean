import Groom.Machine.Environment
import Groom.Machine.Utility
import Groom.Shell.Startup

/-!
A machine whose programs stand in the tree of files: scripts of the shell, and a few programs of
machine code that are known by name.
-/
namespace Groom.Machine

/-- The programs of machine code and the devices in their places. -/
def install (fs : FileSystem) : Except IoError FileSystem := do
  let fs ← fs.makeDirectories (.ofString "/dev")
  Native.install (← fs.makeDevice (.ofString "/dev/null"))

/-- Runs a program. `depth` bounds how many programs may wait for one another. -/
def execute : (depth : Nat) → Launcher
  | 0, _, _, s => (.signal 9, s)
  | depth + 1, image, p, s =>
    match image.native with
    | .shell => Shell.Startup.run (execute depth) image.args p s
    | .utility u => Utility.run (execute depth) u image.args.tail p s

/-- How many programs may wait for one another. -/
def maxProcesses : Nat := 1000

/-- The machine when a program is started by the program that uses it. -/
def boot (tree : Tree) : System where
  tree := tree
  opened := #[{ channel := .nothing }, { channel := .output }, { channel := .complaint }]
  lastProcess := System.userProcess

/-- Runs a program to its end: how it ends, and the machine afterwards. -/
def launch (env : Environment) (cwd : Working) (tree : Tree) (program : Bytes)
    (args : List Bytes) : Except IoError (Ending × System) := do
  if (program :: args).any (0 ∈ ·) then throw (.other "nul byte found in provided data")
  let image ← Image.find ⟨tree, cwd⟩ env.searchPath program args
  let (id, system) := (boot tree).start
  let process : Process :=
    { id
      parent := System.userProcess
      cwd
      streams := [(0, 0), (1, 1), (2, 2)]
      environment := env }
  return execute maxProcesses image process system

/-- The machine as a host; it keeps nothing but its files. -/
def host (env : Environment) (cwd : Working) : Host Unit where
  arrived _ := (false, ())
  launch request _ tree :=
    (launch env cwd tree request.program.bytes request.args).map fun (ending, system) =>
      { ending
        shown := system.shown.toList
        interrupted := system.interrupted
        killed := system.killed.isSome
        host := ()
        tree := system.tree }

def runner (env : Environment) (cwd : Working) : Runner (Host.Watched Unit) :=
  (host env cwd).runner

end Groom.Machine
