import Groom.IoError
import Groom.Path
import Groom.Tree

/-!
Where paths lead in a tree, seen from a working directory. Paths are resolved one component after
another; links are followed on the way and, if the operation wants it, at the end.
-/
namespace Groom

/-- A working directory: the place at which it stood when it was entered. It stays the working
directory when it is removed, and a directory made later in its place is another one. -/
structure Working where
  place : Location
  /-- How many removals the tree had seen by then. -/
  since : Nat := 0
  deriving DecidableEq, Repr

namespace Working

/-- A directory of a tree as the working directory. -/
def enter (t : Tree) (place : Location) : Working := ⟨place, t.removals.length⟩

/-- How many directories are gone on the way up from the working directory, itself included. -/
def lost (t : Tree) (w : Working) : Nat :=
  let later := t.removals.take (t.removals.length - w.since)
  ((later.filter (·.isPrefixOf w.place)).map fun r => w.place.length + 1 - r.length).foldl max 0

end Working

namespace Resolution

/-- The longest path, in bytes, that an operation takes. -/
def maxPath : Nat := 4095

/-- How many links the resolution of one path may follow. -/
def maxLinks : Nat := 40

/-- What an operation wants to know about the last name of a path. -/
inductive Purpose where
  /-- The entry that a link leads to. -/
  | follow
  /-- The entry itself, even if it is a link. -/
  | name
  /-- The file that a link leads to, which is created if it is missing. A file cannot be created
  under a name that asks for a directory. -/
  | create
  deriving DecidableEq, Repr

/-- Where a path leads. -/
inductive Target where
  | entry (loc : Location) (node : Node)
  /-- To a name that its directory does not hold. -/
  | absent (dir : Location) (name : Name)
  /-- To a directory that is no longer in the tree, and so is empty. -/
  | lost

/-- How far a resolution came. -/
inductive Progress where
  | arrived (target : Target)
  /-- A link in the directory `dir` is to be followed before `todo`. -/
  | link (dir : Location) (path : Bytes) (todo : List Bytes)

/-- Walks along segments from a place until they are used up or a link has to be followed. -/
def advance (t : Tree) (purpose : Purpose) (here : Location) :
    List Bytes → Except IoError Progress
  | [] =>
    match t.node? here with
    | some node => .ok (.arrived (.entry here node))
    | none => .error .notFound
  | s :: rest =>
    match t.node? here with
    | some (.directory es) =>
      if s = [] ∨ s = [Bytes.dot] then advance t purpose here rest
      -- places hold no links, so the parent is found by dropping the last name
      else if s = [Bytes.dot, Bytes.dot] then advance t purpose here.dropLast rest
      else if s.length > maxName then .error .nameTooLong
      else if purpose = .create ∧ rest = [[]] then .error .isDirectory
      else match Name.ofBytes? s with
        | none => .error .notFound
        | some name =>
          match Entries.find? es name with
          -- a missing last name may still be created
          | none => if rest = [] then .ok (.arrived (.absent here name)) else .error .notFound
          | some (.link target) =>
            if rest = [] ∧ purpose = .name then
              .ok (.arrived (.entry (here ++ [name]) (.link target)))
            else .ok (.link here target rest)
          | some _ => advance t purpose (here ++ [name]) rest
    | some _ => .error .notDirectory
    | none => .error .notFound

/-- The segments of a path; a slash at the end asks for a directory and counts as an empty one. -/
def steps (p : Path) : List Bytes :=
  if p.bytes.getLast? = some Bytes.slash then p.segments ++ [[]] else p.segments

/-- Resolves segments from a place, following at most `links` links. -/
def resolveFrom (t : Tree) (purpose : Purpose) :
    (links : Nat) → Location → List Bytes → Except IoError Target
  | links, here, todo =>
    match advance t purpose here todo with
    | .error e => .error e
    | .ok (.arrived target) => .ok target
    | .ok (.link dir path rest) =>
      match links with
      | 0 => .error .tooManyLinks
      | links + 1 =>
        if path = [] then .error .notFound
        else
          -- a link is read from the directory that holds it
          resolveFrom t purpose links (if (Path.mk path).isAbsolute then [] else dir)
            (steps ⟨path⟩ ++ rest)

/-- Resolves segments from a directory above which, itself included, `lost` directories are gone:
the way leads up out of them or nowhere. -/
def resolveBelow (t : Tree) (purpose : Purpose) :
    (lost : Nat) → Location → List Bytes → Except IoError Target
  | 0, here, todo => resolveFrom t purpose maxLinks here todo
  | _ + 1, _, [] => .ok .lost
  | lost + 1, here, s :: rest =>
    if s = [] ∨ s = [Bytes.dot] then resolveBelow t purpose (lost + 1) here rest
    else if s = [Bytes.dot, Bytes.dot] then resolveBelow t purpose lost here.dropLast rest
    else .error .notFound
termination_by _ _ todo => todo.length

def validate (p : Path) : Except IoError Unit :=
  if (0 : UInt8) ∈ p.bytes then .error .zeroByte
  else if p.bytes = [] then .error .notFound
  else .ok ()

def ofPath (t : Tree) (cwd : Working) (purpose : Purpose) (p : Path) : Except IoError Target := do
  validate p
  if p.isAbsolute then resolveFrom t purpose maxLinks [] (steps p)
  else resolveBelow t purpose (cwd.lost t) cwd.place (steps p)

end Resolution

end Groom
