/-!
Sets of characters, as lists of ranges of code points. The ranges stand in order and do not touch.
-/
namespace Groom.Expression

abbrev CharSet := List (Nat × Nat)

namespace CharSet

def holds (s : CharSet) (c : Char) : Bool := s.any fun r => r.1 ≤ c.toNat && c.toNat ≤ r.2

def single (c : Char) : CharSet := [(c.toNat, c.toNat)]

def full : CharSet := [(0, 0xD7FF), (0xE000, 0x10FFFF)]

/-- Puts a range in front of ranges that do not begin before it, as one with those it touches. -/
def joined (r : Nat × Nat) : CharSet → CharSet
  | [] => [r]
  | s :: rest =>
    if s.1 ≤ r.2 + 1 then joined (r.1, max r.2 s.2) rest else r :: s :: rest

def insert (r : Nat × Nat) : CharSet → CharSet
  | [] => [r]
  | s :: rest =>
    if r.1 ≤ s.1 then joined r (s :: rest)
    else if r.1 ≤ s.2 + 1 then insert (s.1, max r.2 s.2) rest
    else s :: insert r rest

/-- The set of the characters in any of some ranges. -/
def ofRanges (rs : List (Nat × Nat)) : CharSet := rs.foldl (fun s r => insert r s) []

def union (s t : CharSet) : CharSet := ofRanges (s ++ t)

def inter (s t : CharSet) : CharSet :=
  ofRanges (s.flatMap fun r =>
    t.filterMap fun q =>
      if max r.1 q.1 ≤ min r.2 q.2 then some (max r.1 q.1, min r.2 q.2) else none)

def outside (r : Nat × Nat) : CharSet :=
  (if r.1 = 0 then [] else [(0, r.1 - 1)]) ++ [(r.2 + 1, 0x10FFFF)]

/-- The characters that are not in a set. -/
def complement (s : CharSet) : CharSet :=
  s.foldl (fun rest r => inter rest (outside r)) full

/-- The characters of the first set that are not in the second. -/
def diff (s t : CharSet) : CharSet := inter s (complement t)

/-- The characters of exactly one of two sets. -/
def symmetric (s t : CharSet) : CharSet := diff (union s t) (inter s t)

/-- Whether all characters of a set are below 128. -/
def isNarrow (s : CharSet) : Bool := s.all fun r => r.2 < 128

/-- A set with both cases of each of its letters below 128. -/
def bothCases (s : CharSet) : CharSet :=
  let lower := (inter s [(65, 90)]).map fun r => (r.1 + 32, r.2 + 32)
  let upper := (inter s [(97, 122)]).map fun r => (r.1 - 32, r.2 - 32)
  union s (lower ++ upper)

/-- The only character of a set, if it has just one. -/
def only? : CharSet → Option Nat
  | [(low, high)] => if low = high then some low else none
  | _ => none

end CharSet

/-- The sets that have a name. -/
inductive Named where
  | alnum
  | alpha
  | ascii
  | blank
  | cntrl
  | digit
  | graph
  | lower
  | print
  | punct
  | space
  | upper
  | word
  | xdigit
  deriving DecidableEq, Repr

namespace Named

def ofName? : String → Option Named
  | "alnum" => some .alnum
  | "alpha" => some .alpha
  | "ascii" => some .ascii
  | "blank" => some .blank
  | "cntrl" => some .cntrl
  | "digit" => some .digit
  | "graph" => some .graph
  | "lower" => some .lower
  | "print" => some .print
  | "punct" => some .punct
  | "space" => some .space
  | "upper" => some .upper
  | "word" => some .word
  | "xdigit" => some .xdigit
  | _ => none

def set : Named → CharSet
  | .alnum => [(48, 57), (65, 90), (97, 122)]
  | .alpha => [(65, 90), (97, 122)]
  | .ascii => [(0, 127)]
  | .blank => [(9, 9), (32, 32)]
  | .cntrl => [(0, 31), (127, 127)]
  | .digit => [(48, 57)]
  | .graph => [(33, 126)]
  | .lower => [(97, 122)]
  | .print => [(32, 126)]
  | .punct => [(33, 47), (58, 64), (91, 96), (123, 126)]
  | .space => [(9, 13), (32, 32)]
  | .upper => [(65, 90)]
  | .word => [(48, 57), (65, 90), (95, 95), (97, 122)]
  | .xdigit => [(48, 57), (65, 70), (97, 102)]

end Named

end Groom.Expression
