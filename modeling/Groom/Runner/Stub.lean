import Groom.Command
import Groom.FileSystem
import Groom.StringMap

/-!
A runner for trying out steps. It records every request; probes succeed unless the program is marked
as missing, and a real invocation does what is set for its program or else for its file.
-/
namespace Groom.Stub

/-- What a stubbed tool does to its file. -/
inductive Behavior where
  | keep
  | replace (content : String)
  | append (suffix : String)
  | fail (code : Int)
  | interrupt
  deriving DecidableEq, Repr

/-- One recorded request. -/
structure Call where
  program : String
  args : List String
  output : Output
  deriving DecidableEq, Repr

/-- The name of the file that a call works on. -/
def Call.targetName (c : Call) : Option String :=
  c.args.getLast?.bind fun last => (Path.ofString last).fileName?.map Utf8.lossy

/-- What the tools do. -/
structure Plan where
  /-- The programs that cannot be started. -/
  missing : List String := []
  byProgram : StringMap Behavior := {}
  byFile : StringMap Behavior := {}

def Call.ofRequest (request : Request) : Call :=
  ⟨request.program.display, request.args.map Utf8.lossy, request.output⟩

/-- The real invocations of some calls, each with the name of its file. -/
def invocations (calls : List Call) : List (String × String) :=
  (calls.filter (·.output = .inherit)).map fun c => (c.program, c.targetName.getD "")

def probes (calls : List Call) : List String :=
  (calls.filter (·.output = .capture)).map (·.program)

def Plan.behavior (plan : Plan) (call : Call) : Behavior :=
  ((plan.byProgram.get? call.program).or (call.targetName.bind plan.byFile.get?)).getD .keep

/-- What a behavior does to a file, and how it ends. -/
def Behavior.act (fs : FileSystem) (file : Option Path) :
    Behavior → Except IoError Status × FileSystem
  | .keep => (.ok .success, fs)
  | .fail code => (.ok (.failed (some code)), fs)
  | .interrupt => (.ok .interrupted, fs)
  | .replace content =>
    match file with
    | none => (.ok .success, fs)
    | some file =>
      match fs.write file (Bytes.ofString content) with
      | .ok fs => (.ok .success, fs)
      | .error cause => (.error cause, fs)
  | .append suffix =>
    match file with
    | none => (.ok .success, fs)
    | some file =>
      match fs.readText file with
      | .error cause => (.error cause, fs)
      | .ok content =>
        match fs.write file (Bytes.ofString (content ++ suffix)) with
        | .ok fs => (.ok .success, fs)
        | .error cause => (.error cause, fs)

/-- The runner of a plan. Its state is the list of the calls so far. -/
def runner (cwd : Working) (plan : Plan) : Runner (List Call) := fun request calls tree =>
  let call := Call.ofRequest request
  let calls := calls ++ [call]
  if call.program ∈ plan.missing then ⟨.error (.other "entity not found"), [], calls, tree⟩
  else
    match request.output with
    | .capture => ⟨.ok .success, [], calls, tree⟩
    | .inherit =>
      let file := request.args.getLast?.map Path.mk
      let (answer, fs) := (plan.behavior call).act ⟨tree, cwd⟩ file
      ⟨answer, [], calls, fs.tree⟩

end Groom.Stub
