import Groom.Registry
import Groom.Runner.Machine

/-!
Finding out where a program is, without running it.
-/
namespace Groom.Search

/-- The directory of the user in place of a tilde that is a path's first component. -/
def expandHome (home : Bytes) (p : Path) : Path :=
  match p.components with
  | .name n :: rest =>
    if n = [Bytes.ofChar '~'] then
      rest.foldl
        (fun q c =>
          match c with
          | .up => q.join ⟨[Bytes.dot, Bytes.dot]⟩
          | .name n => q.join ⟨n⟩
          | _ => q)
        ⟨home⟩
    else p
  | _ => p

/-- A relative path from the working directory, without the single dots in front of it. It stays as
it is once the working directory is gone. -/
def fromHere (here : Option Path) (p : Path) : Path :=
  match if p.isAbsolute then none else here with
  | none => p
  | some here =>
    p.components.foldl
      (fun q c =>
        match c with
        | .up => q.join ⟨[Bytes.dot, Bytes.dot]⟩
        | .name n => q.join ⟨n⟩
        | _ => q)
      here

/-- Where a program may be: at its path, if that has several components, and else in the directories
in which programs are searched. Those are searched for every program once the working directory is
gone. -/
def candidates (env : Machine.Environment) (here : Option Path) (program : Path) : List Path :=
  if 1 < program.components.length ∧ here.isSome then [fromHere here program]
  else
    (Machine.Image.directories env.searchPath).map fun dir =>
      (fromHere here (expandHome env.home dir)).join program

/-- Whether a path leads to a file that may be executed. -/
def isProgram (fs : FileSystem) (p : Path) : Bool := (Machine.Image.executable fs p).isOk

def find? (env : Machine.Environment) (fs : FileSystem) (program : Path) : Option Path :=
  (candidates env fs.here? program).find? (isProgram fs)

/-- What is known about a tool. -/
structure Listing where
  id : ToolId
  tool : Tool
  /-- Where its program is, if it is there. -/
  location : Option Path

/-- What is known about all tools, in their order. -/
def list (env : Machine.Environment) (fs : FileSystem) (r : Registry) : List Listing :=
  ToolId.all.map fun id => ⟨id, r.tool id, find? env fs (r.tool id).program⟩

/-- The records of the tools that were not found. -/
def notices (listings : List Listing) : List Log.Record :=
  listings.filterMap fun l =>
    if l.location.isNone then some ⟨.debug, .registry, s!"Tool '{l.tool.name}' not found"⟩ else none

end Groom.Search
