import Groom.FileSystem
import Groom.Shell.Field

/-!
Names of files in place of patterns.
-/
namespace Groom.Shell.Glob

def segments : List Pattern.Mark → List (List Pattern.Mark)
  | [] => [[]]
  | m :: rest =>
    if m.byte = Bytes.slash then [] :: segments rest
    else match segments rest with
      | [] => [[m]]
      | s :: others => (m :: s) :: others

/-- The names in a directory, the two dot names among them. -/
def names (fs : FileSystem) (dir : Bytes) : List Bytes :=
  let dots := [[Bytes.dot], [Bytes.dot, Bytes.dot]]
  match fs.list ⟨if dir = [] then [Bytes.dot] else dir⟩ with
  | .ok entries => dots ++ entries.map (·.1.bytes)
  | .error _ => []

/-- Whether a pattern stands for a name; a dot at its start has to be written. -/
def accepts (p : Pattern) (name : Bytes) : Bool :=
  (name.head? ≠ some Bytes.dot || p.head? = some (.byte Bytes.dot)) && Pattern.fits p name

/-- The text of a pattern that stands for itself alone. -/
def plain (p : Pattern) : Bytes :=
  p.filterMap fun
    | .byte b => some b
    | _ => none

/-- The paths, beginning with `dir`, that patterns for the names after it stand for. -/
def paths (fs : FileSystem) (dir : Bytes) : List Pattern → List Bytes
  | [] => if (fs.linkStatus ⟨dir⟩).isOk then [dir] else []
  | p :: rest =>
    let found := if p.isOpen then (names fs dir).filter (accepts p) else [plain p]
    found.flatMap fun name =>
      match rest with
      | [] => paths fs (dir ++ name) []
      | rest => paths fs (dir ++ name ++ [Bytes.slash]) rest

/-- The names of files that a field stands for, in the order of their bytes; a field that is no
pattern, or that stands for no file, stands for itself. -/
def expand (fs : FileSystem) (field : List Mark) : List Bytes :=
  let patterns := (segments (Mark.pattern field)).map Pattern.ofMarks
  let found := if patterns.any Pattern.isOpen then paths fs [] patterns else []
  if found = [] then [Mark.text field] else found.mergeSort fun a b => !(b < a)

end Groom.Shell.Glob
