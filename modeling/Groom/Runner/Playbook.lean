import Groom.Command
import Groom.FileSystem

/-!
A runner that follows a script. For every program the script says what a probe and a real invocation
do; what they do may depend on how often the program was called before.
-/
namespace Groom.Playbook

/-- One thing that a scripted command does. The last argument of the command is its file. -/
inductive Effect where
  | finish (answer : Except IoError Status)
  /-- It adds to its file. -/
  | append (text : Bytes)
  /-- It replaces the content of its file. -/
  | write (text : Bytes)
  /-- It replaces every occurrence of a text in its file. -/
  | substitute (pattern replacement : Bytes)
  /-- It removes its file. -/
  | remove
  /-- It writes another file, making the directories on the way. -/
  | put (path : Path) (content : Bytes)
  /-- It removes another file, or a directory with all that is below it. -/
  | delete (path : Path)

/-- What a command does, call after call; the last entry counts for all later calls. -/
abbrev Course := List (List Effect)

/-- What the script says about one program. -/
structure Part where
  probe : Option Course := none
  run : Option Course := none
  /-- What an invocation does whose file has one of these names. -/
  files : List (String × Course) := []

/-- A script: what each program does, by the text of its path. The entry for `*` counts where no
other does. -/
abbrev Script := List (String × Part)

/-- How often each program was called so far, and how. -/
abbrev Calls := List (String × Output)

def target (request : Request) : Path := ⟨request.args.getLast?.getD []⟩

def Part.course? (part : Part) (request : Request) : Option Course :=
  match request.output with
  | .capture => part.probe
  | .inherit =>
    match (target request).fileName? with
    | some name => (part.files.lookup (Utf8.lossy name)).or part.run
    | none => part.run

def course? (script : Script) (request : Request) : Option Course :=
  ((script.lookup request.program.display).bind (·.course? request)).or
    ((script.lookup "*").bind (·.course? request))

/-- The entry of a course for a call with so many calls before it. -/
def Course.at (course : Course) (earlier : Nat) : List Effect :=
  (course[earlier]?.or course.getLast?).getD []

def directory (p : Path) : Path := p.parent?.getD ⟨[]⟩

def Effect.act (fs : FileSystem) (file : Path) : Effect → Except IoError FileSystem
  | .finish _ => .ok fs
  | .append text => fs.modify file (· ++ text)
  | .write text => fs.write file text
  | .substitute pattern replacement => fs.modify file (Bytes.replace pattern replacement)
  | .remove => fs.removeFile file
  | .put path content => do (← fs.makeDirectories (directory path)).write path content
  | .delete path => .ok (fs.removeAll path)

/-- Effects one after another, up to one that ends the command; an effect that fails ends it too. -/
def perform (fs : FileSystem) (file : Path) : List Effect → Except IoError Status × FileSystem
  | [] => (.ok .success, fs)
  | .finish answer :: _ => (answer, fs)
  | effect :: rest =>
    match effect.act fs file with
    | .ok fs => perform fs file rest
    | .error cause => (.error cause, fs)

def runner (cwd : Working) (script : Script) : Runner Calls := fun request calls tree =>
  let key := (request.program.display, request.output)
  let effects := ((course? script request).map (·.at (calls.count key))).getD []
  let (answer, fs) := perform ⟨tree, cwd⟩ (target request) effects
  ⟨answer, [], calls ++ [key], fs.tree⟩

end Groom.Playbook
