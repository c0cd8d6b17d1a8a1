import Groom.Utf8

/-!
Paths as they are written: byte strings with slashes. Nothing here looks at a file system; the
meaning of a path in a tree is the business of `Groom.FileSystem`.
-/
namespace Groom

/-- A path as it is written. -/
structure Path where
  bytes : Bytes
  deriving DecidableEq, Repr, Inhabited

namespace Path

def ofString (s : String) : Path := ⟨Bytes.ofString s⟩

def display (p : Path) : String := Utf8.lossy p.bytes

/-- The text shown for a path, in the pieces in which it is written out. -/
def displayPieces (p : Path) : List String := Utf8.pieces p.bytes

/-- Whether a path starts at the root of the tree. -/
def isAbsolute (p : Path) : Bool := p.bytes.head? = some Bytes.slash

/-- A path relative to another: an absolute right side replaces the left one, and one slash is put
between the two unless the left side is empty or ends in one. -/
def join (p q : Path) : Path :=
  if q.isAbsolute then q
  else if p.bytes = [] ∨ p.bytes.getLast? = some Bytes.slash then ⟨p.bytes ++ q.bytes⟩
  else ⟨p.bytes ++ Bytes.slash :: q.bytes⟩

/-- One step of a path. -/
inductive Component where
  | root
  | here
  | up
  | name (bytes : Bytes)
  deriving DecidableEq, Repr

/-- The stretches between slashes, without the empty ones. -/
def segments (p : Path) : List Bytes :=
  (Bytes.splitOn Bytes.slash p.bytes).filter (· ≠ [])

def Component.ofSegment (s : Bytes) : Component :=
  if s = [Bytes.dot] then .here
  else if s = [Bytes.dot, Bytes.dot] then .up
  else .name s

/-- The steps of a path. Repeated slashes count once, and a single dot counts only at the start of a
relative path. -/
def components (p : Path) : List Component :=
  let steps := p.segments.map Component.ofSegment
  if p.isAbsolute then .root :: steps.filter (· ≠ .here)
  else match steps with
    | .here :: rest => .here :: rest.filter (· ≠ .here)
    | _ => steps.filter (· ≠ .here)

def same (p q : Path) : Bool := p.components = q.components

/-- The last component, if it is a name. -/
def fileName? (p : Path) : Option Bytes :=
  match p.components.getLast? with
  | some (.name n) => some n
  | _ => none

/-- What follows the last dot of a file name, unless that dot is its first byte. -/
def extensionOf? (name : Bytes) : Option Bytes :=
  match Bytes.splitLast? Bytes.dot name with
  | some ([], _) => none
  | some (_, ext) => some ext
  | none => none

def extension? (p : Path) : Option Bytes := p.fileName?.bind extensionOf?

/-- Drops the empty and single-dot stretches at the end, keeping the first stretch whatever it is.
The stretches are given last first. -/
def trimStretches : List Bytes → List Bytes
  | s :: t :: rest => if s = [] ∨ s = [Bytes.dot] then trimStretches (t :: rest) else s :: t :: rest
  | rest => rest

/-- The path without its last component; `none` for the root and for the empty path. -/
def parent? (p : Path) : Option Path :=
  match p.components.getLast? with
  | none | some .root => none
  | some _ =>
    match trimStretches (Bytes.splitOn Bytes.slash p.bytes).reverse with
    | [] | [_] => some ⟨[]⟩
    | _ :: rest =>
      match trimStretches rest with
      | [[]] => some ⟨[Bytes.slash]⟩
      | rest => some ⟨Bytes.joinWith Bytes.slash rest.reverse⟩

/-- The path written by components, with single slashes. -/
def ofNames (names : List Bytes) : Path :=
  ⟨names.flatMap (Bytes.slash :: ·)⟩

end Path

end Groom
