import Groom.Path

/-!
Which files a step takes: by the extension of the file name, or by the file name as a whole. Both
are compared byte for byte.
-/
namespace Groom

/-- A predicate on the last component of a path. -/
inductive Selection where
  /-- The extension is one of these, written without the dot. -/
  | suffixes (suffixes : List String)
  /-- The file name is one of these. -/
  | names (names : List String)
  deriving DecidableEq, Repr

namespace Selection

/-- A suffix without the dots in front of it. -/
def trimDots (suffix : String) : String :=
  String.ofList (suffix.toList.dropWhile (· = '.'))

/-- Selects by extension; dots in front of a suffix are ignored. -/
def bySuffix (given : List String) : Selection := .suffixes (given.map trimDots)

def accepts (s : Selection) (p : Path) : Bool :=
  match s with
  | .suffixes given =>
    match p.extension? with
    | some ext => given.any fun suffix => Bytes.ofString suffix = ext
    | none => false
  | .names given =>
    match p.fileName? with
    | some name => given.any fun n => Bytes.ofString n = name
    | none => false

end Selection

end Groom
