import Groom.Bytes

/-!
Patterns for texts: a star stands for any bytes, a question mark for any one byte, and brackets for
one byte of a set.
-/
namespace Groom.Shell

/-- One place of a pattern. -/
inductive Glyph where
  | byte (b : UInt8)
  | one
  | many
  /-- One byte that is, or if `negated` is not, in one of the ranges. -/
  | among (negated : Bool) (ranges : List (UInt8 × UInt8))
  deriving DecidableEq, Repr

abbrev Pattern := List Glyph

namespace Pattern

/-- A byte of a pattern's text; a quoted byte stands for itself. -/
structure Mark where
  byte : UInt8
  quoted : Bool
  deriving DecidableEq, Repr

def Mark.is (m : Mark) (c : Char) : Bool := !m.quoted && m.byte = Bytes.ofChar c

/-- The bytes of a class that is given by its name. -/
def classRanges? (name : String) : Option (List (UInt8 × UInt8)) :=
  let range (a b : Char) : UInt8 × UInt8 := (Bytes.ofChar a, Bytes.ofChar b)
  let lower := [range 'a' 'z']
  let upper := [range 'A' 'Z']
  let digit := [range '0' '9']
  match name with
  | "alnum" => some (lower ++ upper ++ digit)
  | "alpha" => some (lower ++ upper)
  | "blank" => some [range ' ' ' ', range '\t' '\t']
  | "cntrl" => some [(0, 31), (127, 127)]
  | "digit" => some digit
  | "graph" => some [(33, 126)]
  | "lower" => some lower
  | "print" => some [(32, 126)]
  | "punct" => some [(33, 47), (58, 64), (91, 96), (123, 126)]
  | "space" => some [(32, 32), (9, 13)]
  | "upper" => some upper
  | "xdigit" => some (digit ++ [range 'a' 'f', range 'A' 'F'])
  | _ => none

/-- Reads the name of a class after its opening bracket: its bytes and what follows. -/
def class? (marks : List Mark) : Option (List (UInt8 × UInt8) × List Mark) :=
  match marks with
  | colon :: rest =>
    if colon.is ':' then
      let name := rest.takeWhile fun m => !m.is ':'
      match rest.drop name.length with
      | _ :: close :: rest =>
        if close.is ']' then
          (classRanges? (String.ofList (name.map fun m => Char.ofNat m.byte.toNat))).map (·, rest)
        else none
      | _ => none
    else none
  | [] => none

/-- Drops a backslash that takes away the meaning of what follows. -/
def unescaped : List Mark → List Mark
  | m :: next :: rest => if m.is '\\' then ⟨next.byte, true⟩ :: rest else m :: next :: rest
  | rest => rest

/-- Reads the ranges of a set up to its closing bracket: the ranges and what follows. -/
def ranges? : (fuel : Nat) → (first : Bool) → List Mark → Option (List (UInt8 × UInt8) × List Mark)
  | 0, _, _ => none
  | fuel + 1, first, marks =>
    let also (r : List (UInt8 × UInt8)) (rest : List Mark) :
        Option (List (UInt8 × UInt8) × List Mark) :=
      (ranges? fuel false rest).map fun (rs, rest) => (r ++ rs, rest)
    match unescaped marks with
    | [] => none
    | m :: rest =>
      if m.is ']' && !first then some ([], rest)
      else match if m.is '[' then class? rest else none with
        | some (r, rest) => also r rest
        | none =>
          match rest with
          | dash :: last :: rest' =>
            if dash.is '-' && !last.is ']' then
              match unescaped (last :: rest') with
              | last :: rest => also [(m.byte, last.byte)] rest
              | [] => none
            else also [(m.byte, m.byte)] rest
          | _ => also [(m.byte, m.byte)] rest

def set? (marks : List Mark) : Option (Glyph × List Mark) :=
  match marks with
  | m :: rest =>
    if m.is '!' then
      (ranges? marks.length true rest).map fun (rs, rest) => (.among true rs, rest)
    else (ranges? (marks.length + 1) true marks).map fun (rs, rest) => (.among false rs, rest)
  | [] => none

/-- Reads a pattern with at most so many places. -/
def read : (fuel : Nat) → List Mark → Pattern
  | 0, _ => []
  | fuel + 1, marks =>
    match unescaped marks with
    | [] => []
    | m :: rest =>
      if m.is '*' then .many :: read fuel rest
      else if m.is '?' then .one :: read fuel rest
      else if m.is '[' then
        match set? rest with
        | some (glyph, rest) => glyph :: read fuel rest
        | none => .byte m.byte :: read fuel rest
      else .byte m.byte :: read fuel rest

def ofMarks (marks : List Mark) : Pattern := read marks.length marks

/-- Whether a pattern stands for more than one text. -/
def isOpen (p : Pattern) : Bool :=
  p.any fun
    | .byte _ => false
    | _ => true

/-- Whether a byte is in one of the ranges. -/
def inRanges (b : UInt8) (ranges : List (UInt8 × UInt8)) : Bool :=
  ranges.any fun r => r.1 ≤ b && b ≤ r.2

/-- Whether some end of a text satisfies a test. -/
def anyEnd (test : Bytes → Bool) : Bytes → Bool
  | [] => test []
  | b :: rest => test (b :: rest) || anyEnd test rest

def fits : Pattern → Bytes → Bool
  | [], bs => bs = []
  | .many :: rest, bs => anyEnd (fits rest) bs
  | .one :: rest, _ :: bs => fits rest bs
  | .byte c :: rest, b :: bs => c = b && fits rest bs
  | .among negated rs :: rest, b :: bs => (inRanges b rs != negated) && fits rest bs
  | _ :: _, [] => false

/-- A text without the part at its front, or at its end, that a pattern stands for: the longest such
part or the shortest. A text without such a part stays as it is. -/
def trim (p : Pattern) (front longest : Bool) (bs : Bytes) : Bytes :=
  let lengths := List.range (bs.length + 1)
  let lengths := if longest then lengths.reverse else lengths
  let taken (n : Nat) : Bytes × Bytes :=
    if front then (bs.take n, bs.drop n) else (bs.drop (bs.length - n), bs.take (bs.length - n))
  match lengths.find? fun n => fits p (taken n).1 with
  | some n => (taken n).2
  | none => bs

end Pattern

end Groom.Shell
