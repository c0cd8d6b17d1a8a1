import Groom.Expression.Basic

/-!
How much room an expression takes when it is laid out state by state over the bytes of a text, in
either direction. Expressions that take too much are refused.
-/
namespace Groom.Expression

abbrev ByteRange := Nat × Nat

/-- The largest code point with so many bytes. -/
def largest : Nat → Nat
  | 1 => 0x7F
  | 2 => 0x7FF
  | 3 => 0xFFFF
  | _ => 0x10FFFF

/-- The number of bytes of a code point. -/
def byteCount (n : Nat) : Nat :=
  if n ≤ 0x7F then 1 else if n ≤ 0x7FF then 2 else if n ≤ 0xFFFF then 3 else 4

/-- So many last groups of six bits of a number, the highest first, each as a byte of a character.
-/
def tailBytes : Nat → Nat → List Nat
  | 0, _ => []
  | k + 1, n => tailBytes k (n / 64) ++ [128 + n % 64]

def bytesOf (n : Nat) : List Nat :=
  match byteCount n with
  | 1 => [n]
  | 2 => (192 + n / 64) :: tailBytes 1 n
  | 3 => (224 + n / 4096) :: tailBytes 2 n
  | _ => (240 + n / 262144) :: tailBytes 3 n

/-- Where to cut a range of code points so that its bytes vary independently. -/
def cut? (low high : Nat) : Option Nat :=
  -- between code points with different numbers of bytes
  (([1, 2, 3].find? fun k => low ≤ largest k && largest k < high).map largest).or <|
    [64, 4096, 262144].findSome? fun unit =>
      if byteCount low = 1 ∨ low / unit = high / unit then none
      else if low % unit ≠ 0 then some (low / unit * unit + (unit - 1))
      else if high % unit ≠ unit - 1 then some (high / unit * unit - 1)
      else none

/-- The sequences of byte ranges of a range of code points. -/
def sequences : (fuel : Nat) → (low high : Nat) → List (List ByteRange)
  | 0, _, _ => []
  | fuel + 1, low, high =>
    match cut? low high with
    | some n => sequences fuel low n ++ sequences fuel (n + 1) high
    | none => [(bytesOf low).zip (bytesOf high)]

/-- The sequences of byte ranges of a set. -/
def CharSet.sequences (s : CharSet) : List (List ByteRange) :=
  (s.inter .full).flatMap fun r => Expression.sequences 64 r.1 r.2

def properPrefixes {α : Type} : List α → List (List α)
  | [] => []
  | a :: rest => [] :: (properPrefixes rest).map (a :: ·)

/-- What follows a beginning in those of some lists that have it. -/
def suffixes {α : Type} [BEq α] (beginning : List α) (ls : List (List α)) : List (List α) :=
  (ls.filter beginning.isPrefixOf).map (·.drop beginning.length)

def stateRoom : Nat := 32

/-- The room of a set that is read forward. Beginnings with the same continuations share a state,
and each state has its ways on. -/
def CharSet.forward (s : CharSet) : Nat :=
  let seqs := s.sequences
  let nodes := ((seqs.flatMap properPrefixes).eraseDups.map (suffixes · seqs)).eraseDups
  let waysOn (n : List (List ByteRange)) : Nat := (n.filterMap List.head?).eraseDups.length
  nodes.foldl (fun room n => room + stateRoom + 8 * waysOn n) stateRoom

/-- The room of a set that is read backward. Sequences share the states of their beginnings. -/
def CharSet.backward (s : CharSet) : Nat :=
  let seqs := s.sequences
  let beginnings := (seqs.flatMap fun l => (properPrefixes l).tail ++ [l]).eraseDups
  2 * stateRoom + 4 * seqs.length + stateRoom * beginnings.length

def CharSet.room (back : Bool) (s : CharSet) : Nat :=
  match s.only? with
  | some n => stateRoom * byteCount n
  | none =>
    if s = [] then stateRoom
    else if s.isNarrow then 2 * stateRoom + 8 * s.length
    else if back then s.backward else s.forward

mutual

/-- Whether an expression may match the empty text. -/
def isNullable : Expression → Bool
  | .empty | .look _ => true
  | .one _ => false
  | .sequence e f => isNullable e && isNullable f
  | .either es => isAnyNullable es
  | .repeated low _ e => low = 0 || isNullable e
  | .group e => isNullable e

/-- Whether any of some expressions may match the empty text. -/
def isAnyNullable : List Expression → Bool
  | [] => false
  | e :: rest => isNullable e || isAnyNullable rest

end

mutual

/-- The room of an expression. Only forward the places of groups are kept. -/
def room (back : Bool) : Expression → Nat
  | .empty | .look _ => stateRoom
  | .one s => s.room back
  | .sequence e f => room back e + room back f
  | .either es => 2 * stateRoom + roomOfAll back es
  | .repeated low high e =>
    let one := room back e
    match low, high with
    | 0, some 1 => 2 * stateRoom + 8 + one
    | 0, none => if isNullable e then 3 * stateRoom + 16 + one else stateRoom + 8 + one
    | low, none => low * one + stateRoom + 8
    | low, some high =>
      let first := if low = 0 then stateRoom else low * one
      if low = high then first
      else first + stateRoom + (high - low) * (stateRoom + 8 + one)
  | .group e => room back e + if back then 0 else 2 * stateRoom

/-- The room of alternatives, with a way to each of them. -/
def roomOfAll (back : Bool) : List Expression → Nat
  | [] => 0
  | e :: rest => room back e + 4 + roomOfAll back rest

end

mutual

/-- Whether an expression has a condition on words of all scripts. -/
def hasWide : Expression → Bool
  | .look l => l = .wide
  | .empty | .one _ => false
  | .sequence e f => hasWide e || hasWide f
  | .either es => haveWide es
  | .repeated _ _ e => hasWide e
  | .group e => hasWide e

/-- Whether any of some expressions has a condition on words of all scripts. -/
def haveWide : List Expression → Bool
  | [] => false
  | e :: rest => hasWide e || haveWide rest

end

/-- The most room that an expression may take. -/
def maxRoom : Nat := 10485760

/-- Whether an expression takes too much room in a direction, with the states around it. -/
def isTooLarge (back : Bool) (e : Expression) : Bool :=
  let around := 3 * stateRoom + 8 + if back then 0 else 2 * stateRoom
  maxRoom < room back e + around

end Groom.Expression
