/-!
Byte strings. File names, arguments and file contents are sequences of bytes that need not be text.
-/
namespace Groom

abbrev Bytes := List UInt8

namespace Bytes

def ofString (s : String) : Bytes := s.toUTF8.data.toList

def ofChar (c : Char) : UInt8 := c.toNat.toUInt8

/-- The byte that separates the components of a path. -/
def slash : UInt8 := 47

/-- The byte in front of a file name's extension. -/
def dot : UInt8 := 46

/-- The stretches between the separators, at least one. -/
def splitOn (sep : UInt8) : Bytes → List Bytes
  | [] => [[]]
  | b :: rest =>
    if b = sep then [] :: splitOn sep rest
    else match splitOn sep rest with
      | [] => [[b]]
      | piece :: pieces => (b :: piece) :: pieces

def joinWith (sep : UInt8) : List Bytes → Bytes
  | [] => []
  | [piece] => piece
  | piece :: pieces => piece ++ sep :: joinWith sep pieces

/-- Everything after the last separator, if there is one, with what stands before it. -/
def splitLast? (sep : UInt8) : Bytes → Option (Bytes × Bytes)
  | [] => none
  | b :: rest =>
    match splitLast? sep rest with
    | some (before, after) => some (b :: before, after)
    | none => if b = sep then some ([], rest) else none

/-- What follows `pattern` at the start of a byte string. -/
def dropPattern? : (pattern : Bytes) → Bytes → Option Bytes
  | [], bs => some bs
  | _ :: _, [] => none
  | p :: ps, b :: bs => if p = b then dropPattern? ps bs else none

/-- Replaces every occurrence of a non-empty pattern, from left to right. -/
def replace (pattern replacement : Bytes) (bs : Bytes) : Bytes :=
  go 0 bs
where
  /-- `skip` counts the bytes that still belong to the occurrence just replaced. -/
  go : Nat → Bytes → Bytes
  | _, [] => []
  | skip + 1, _ :: rest => go skip rest
  | 0, b :: rest =>
    match pattern with
    | [] => b :: go 0 rest
    | _ :: tail =>
      if (dropPattern? pattern (b :: rest)).isSome then replacement ++ go tail.length rest
      else b :: go 0 rest

end Bytes

end Groom
