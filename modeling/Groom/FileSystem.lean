import Groom.Resolution

/-!
The files of a tree, seen from a working directory, and the operations on them that the rest of the
library uses.
-/
namespace Groom

/-- A tree seen from a working directory. -/
structure FileSystem where
  tree : Tree
  cwd : Working

namespace FileSystem

open Resolution (Purpose Target)

/-- Refuses what no operation takes as a path. -/
def validate (p : Path) : Except IoError Unit := do
  Resolution.validate p
  if p.bytes.length > Resolution.maxPath then throw .nameTooLong

def resolve (fs : FileSystem) (purpose : Purpose) (p : Path) : Except IoError Target := do
  validate p
  Resolution.ofPath fs.tree fs.cwd purpose p

def entry (fs : FileSystem) (purpose : Purpose) (p : Path) : Except IoError Node :=
  match fs.resolve purpose p with
  | .ok (.entry _ node) => .ok node
  | .ok .lost => .ok (.directory [])
  | .ok (.absent ..) => .error .notFound
  | .error e => .error e

/-- The entry that a path leads to when links are followed. -/
def status (fs : FileSystem) (p : Path) : Except IoError Node := fs.entry .follow p

/-- The entry that a path names, which may be a link. -/
def linkStatus (fs : FileSystem) (p : Path) : Except IoError Node := fs.entry .name p

/-- Whether a path leads to a regular file. -/
def isFile (fs : FileSystem) (p : Path) : Bool :=
  match fs.status p with
  | .ok (.file ..) => true
  | _ => false

def isDirectory (fs : FileSystem) (p : Path) : Bool :=
  match fs.status p with
  | .ok (.directory _) => true
  | _ => false

def read (fs : FileSystem) (p : Path) : Except IoError Bytes :=
  match fs.status p with
  | .ok (.file content _) => .ok content
  | .ok (.directory _) => .error .isDirectory
  | .ok (.link _) => .error .tooManyLinks
  | .ok .device => .ok []
  | .error e => .error e

/-- The content of a file that has to be text. -/
def readText (fs : FileSystem) (p : Path) : Except IoError String :=
  match fs.read p with
  | .ok bytes =>
    match Utf8.decode? bytes with
    | some text => .ok text
    | none => .error .notText
  | .error e => .error e

/-- The names in a directory with what they stand for, in the order of the names' bytes. -/
def list (fs : FileSystem) (p : Path) : Except IoError (List (Name × Kind)) :=
  match fs.status p with
  | .ok (.directory es) => .ok ((Entries.sorted es).map fun e => (e.1, e.2.kind))
  | .ok _ => .error .notDirectory
  | .error e => .error e

/-- The tree in another state, seen from the same working directory. -/
def withTree (fs : FileSystem) (t : Tree) : FileSystem := { fs with tree := t }

/-- Gives a file new content; a file that is missing is created. -/
def write (fs : FileSystem) (p : Path) (content : Bytes) : Except IoError FileSystem :=
  match fs.resolve .create p with
  | .ok (.entry loc (.file _ executable)) =>
    .ok (fs.withTree (fs.tree.put loc (.file content executable)))
  | .ok (.entry _ (.directory _)) | .ok .lost => .error .isDirectory
  | .ok (.entry _ (.link _)) => .error .tooManyLinks
  | .ok (.entry _ .device) => .ok fs
  -- a new file is not executable
  | .ok (.absent dir name) => .ok (fs.withTree (fs.tree.put (dir ++ [name]) (.file content false)))
  | .error e => .error e

/-- Changes the content of a file that exists. -/
def modify (fs : FileSystem) (p : Path) (change : Bytes → Bytes) : Except IoError FileSystem :=
  match fs.read p with
  | .ok content => fs.write p (change content)
  | .error e => .error e

def markExecutable (fs : FileSystem) (p : Path) : Except IoError FileSystem :=
  match fs.resolve .follow p with
  | .ok (.entry loc (.file content _)) => .ok (fs.withTree (fs.tree.put loc (.file content true)))
  | .ok _ => .ok fs
  | .error e => .error e

/-- The last name of a path, in its directory. -/
inductive Place where
  /-- The entry of this name, if there is one; a slash after the name asks for a directory. -/
  | named (dir : Location) (name : Name) (node : Option Node) (slash : Bool)
  /-- The path ends in one or two dots, or it is the root. -/
  | dots

/-- Finds the last name of a path without following a link there. The directory has to be there,
whatever follows it. -/
def place (fs : FileSystem) (p : Path) : Except IoError Place := do
  validate p
  let start : Bytes := if p.isAbsolute then [Bytes.slash] else [Bytes.dot, Bytes.slash]
  let before := p.segments.dropLast.flatMap (· ++ [Bytes.slash])
  let found ← Resolution.ofPath fs.tree fs.cwd .follow ⟨start ++ before⟩
  match p.segments.getLast? with
  | none => return .dots
  | some last =>
    if last = [Bytes.dot] ∨ last = [Bytes.dot, Bytes.dot] then return .dots
    else if last.length > Resolution.maxName then throw .nameTooLong
    else match found, Name.ofBytes? last with
      | .entry dir (.directory es), some name =>
        return .named dir name (Entries.find? es name) (p.bytes.getLast? = some Bytes.slash)
      | _, _ => throw .notFound

/-- Puts an entry where a path leads to nothing. -/
def makeEntry (fs : FileSystem) (p : Path) (node : Node) : Except IoError FileSystem :=
  match fs.place p with
  | .ok (.named dir name none false) => .ok (fs.withTree (fs.tree.put (dir ++ [name]) node))
  | .ok (.named _ _ none true) => .error .notFound
  | .ok _ => .error .alreadyExists
  | .error e => .error e

/-- Puts a link where a path leads to nothing. -/
def makeLink (fs : FileSystem) (p : Path) (target : Bytes) : Except IoError FileSystem :=
  fs.makeEntry p (.link target)

/-- Puts a device where a path leads to nothing. -/
def makeDevice (fs : FileSystem) (p : Path) : Except IoError FileSystem := fs.makeEntry p .device

def makeDirectory (fs : FileSystem) (p : Path) : Except IoError FileSystem :=
  match fs.place p with
  | .ok (.named dir name none _) => .ok (fs.withTree (fs.tree.put (dir ++ [name]) (.directory [])))
  | .ok _ => .error .alreadyExists
  | .error e => .error e

/-- Creates a directory and those on the way to it that are missing, at most `depth` of them. One
that is there already stays. -/
def makeMissing : (depth : Nat) → FileSystem → Path → Except IoError FileSystem
  | 0, fs, _ => .ok fs
  | depth + 1, fs, p =>
    if p.bytes = [] then .ok fs
    else match fs.makeDirectory p with
      | .ok fs => .ok fs
      | .error cause =>
        if cause = .notFound then
          match p.parent? with
          | none => .error (.other "failed to create whole tree")
          | some parent =>
            match makeMissing depth fs parent with
            | .error cause => .error cause
            | .ok fs => settle fs p (fs.makeDirectory p)
        else settle fs p (.error cause)
where
  /-- A directory that could not be created may be there. -/
  settle (fs : FileSystem) (p : Path) : Except IoError FileSystem → Except IoError FileSystem
    | .ok fs => .ok fs
    | .error cause => if fs.isDirectory p then .ok fs else .error cause

/-- Creates a directory and those on the way to it. -/
def makeDirectories (fs : FileSystem) (p : Path) : Except IoError FileSystem :=
  makeMissing (p.bytes.length + 1) fs p

def removeFile (fs : FileSystem) (p : Path) : Except IoError FileSystem :=
  match fs.place p with
  | .ok .dots | .ok (.named _ _ (some (.directory _)) _) => .error .isDirectory
  | .ok (.named _ _ (some _) true) => .error .notDirectory
  | .ok (.named dir name (some _) false) => .ok (fs.withTree (fs.tree.remove (dir ++ [name])))
  | .ok (.named _ _ none _) => .error .notFound
  | .error e => .error e

/-- Removes an entry with all that is below it, if it is there. -/
def removeAll (fs : FileSystem) (p : Path) : FileSystem :=
  match fs.resolve .name p with
  | .ok (.entry loc _) => fs.withTree (fs.tree.remove loc)
  | _ => fs

/-- The path of a place: absolute, without links and dots. -/
def pathOf (loc : Location) : Path :=
  if loc = [] then ⟨[Bytes.slash]⟩ else Path.ofNames (loc.map (·.bytes))

/-- The path of the working directory, if that is still in the tree. -/
def here? (fs : FileSystem) : Option Path :=
  if fs.cwd.lost fs.tree = 0 then some (pathOf fs.cwd.place) else none

/-- The path of the entry that a path of any length leads to. A relative path leads nowhere once
the working directory is gone. -/
def canonical (fs : FileSystem) (p : Path) : Except IoError Path :=
  if !p.isAbsolute ∧ fs.here? = none then .error .notFound
  else match Resolution.ofPath fs.tree fs.cwd .follow p with
    | .ok (.entry loc _) => .ok (pathOf loc)
    | .ok _ => .error .notFound
    | .error e => .error e

/-- A path from the root that means the same as a path seen from the directory `here`, without
looking at the entries: single dots and repeated slashes are dropped, and a slash at the end is
kept. Two slashes at the start, no fewer and no more, stay two. -/
def anchored (here p : Path) : Path :=
  let q := p.components.foldl write start
  if p.bytes.getLast? = some Bytes.slash then q.join ⟨[]⟩ else q
where
  /-- The path to which the steps are added. -/
  start : Path :=
    if !p.isAbsolute then here
    else if p.bytes.take 2 = [Bytes.slash, Bytes.slash] ∧
        (p.bytes.drop 2).head? ≠ some Bytes.slash then ⟨[Bytes.slash, Bytes.slash]⟩
    else ⟨[Bytes.slash]⟩
  /-- Adds one more step to a path. -/
  write : Path → Path.Component → Path
    | q, .root | q, .here => q
    | q, .up => q.join ⟨[Bytes.dot, Bytes.dot]⟩
    | q, .name n => q.join ⟨n⟩

/-- The path by which a file is reported: that of the entry it leads to, else the anchored path. The
empty path stays empty, and a relative path stays as it is once the working directory is gone. -/
def absolute (fs : FileSystem) (p : Path) : Path :=
  match fs.canonical p with
  | .ok q => q
  | .error _ =>
    if p.bytes = [] then p
    else if p.isAbsolute then anchored ⟨[]⟩ p
    else match fs.here? with
      | some here => anchored here p
      | none => p

end FileSystem

end Groom
