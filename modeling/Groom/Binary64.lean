/-!
Binary floating point with 53 bits, as exact numbers: the value nearest to a decimal, and the
shortest decimal to which a value is nearest.
-/
namespace Groom

/-- The finite non-negative value `significand * 2 ^ exponent`; the significand is below `2 ^ 53`,
the exponent is at least -1074, and one of the two is as small as it can be. -/
structure Binary64 where
  significand : Nat
  exponent : Int
  deriving DecidableEq, Repr

namespace Binary64

def minExponent : Int := -1074

def maxExponent : Int := 971

/-- The quotient of two numbers, rounded to the nearest; a half goes to the even neighbour. -/
def roundDiv (num den : Nat) : Nat :=
  let q := num / den
  let r := num % den
  if 2 * r < den then q
  else if 2 * r > den then q + 1
  else if q % 2 = 0 then q else q + 1

/-- The value nearest to `num / den`; `none` if it is too large. -/
def ofRatio? (num den : Nat) : Option Binary64 :=
  if num = 0 ∨ den = 0 then some ⟨0, minExponent⟩
  else
    -- the quotient has 53 bits at this exponent or at the one below
    let guess : Int := (Nat.log2 num : Int) - Nat.log2 den - 52
    let scaled (e : Int) : Nat × Nat :=
      if 0 ≤ e then (num, den <<< e.toNat) else (num <<< (-e).toNat, den)
    let fits (e : Int) : Bool := (scaled e).1 / (scaled e).2 < 1 <<< 53
    let tight : Int := if fits (guess - 1) then guess - 1 else guess
    let e := max tight minExponent
    let m := roundDiv (scaled e).1 (scaled e).2
    -- rounding up may have made one bit too many
    let v : Binary64 := if m = 1 <<< 53 then ⟨1 <<< 52, e + 1⟩ else ⟨m, e⟩
    if maxExponent < v.exponent then none else some v

/-- The value nearest to `digits * 10 ^ exponent`; `none` if it is too large. -/
def ofDecimal? (digits : Nat) (exponent : Int) : Option Binary64 :=
  -- far out of range nothing has to be computed
  let size : Int := (Nat.toDigits 10 digits).length + exponent
  if digits = 0 ∨ size < -400 then some ⟨0, minExponent⟩
  else if 400 < size then none
  else if 0 ≤ exponent then ofRatio? (digits * Nat.pow 10 exponent.toNat) 1
  else ofRatio? digits (Nat.pow 10 (-exponent).toNat)

/-- The ratio of a value to a power of ten. -/
def ratio (v : Binary64) (power : Int) : Nat × Nat :=
  let num := if 0 ≤ v.exponent then v.significand <<< v.exponent.toNat else v.significand
  let den := if 0 ≤ v.exponent then 1 else 1 <<< (-v.exponent).toNat
  if 0 ≤ power then (num, den * Nat.pow 10 power.toNat) else (num * Nat.pow 10 (-power).toNat, den)

/-- The neighbour of a value on a decimal grid to which the value is nearest, if there is one; of
two equally near ones the larger. -/
def onGrid? (v : Binary64) (power : Int) : Option Nat :=
  let (num, den) := v.ratio power
  let low := num / den
  let reads (d : Nat) : Bool := ofDecimal? d power = some v
  match reads low, reads (low + 1) with
  | true, true => some (if 2 * (num % den) < den then low else low + 1)
  | true, false => some low
  | false, true => some (low + 1)
  | false, false => none

/-- The shortest decimal, as digits and a power of ten, to which a value is nearest. -/
def shortest (v : Binary64) : Nat × Int :=
  if v.significand = 0 then (0, 0)
  else
    let (num, den) := v.ratio 0
    let top : Int :=
      if den ≤ num then (Nat.toDigits 10 (num / den)).length
      else -(((Nat.toDigits 10 (den / num)).length : Int) - 1)
    let grids := (List.range 20).map fun (k : Nat) => top - (k : Int)
    (grids.findSome? fun p =>
      match v.onGrid? p with
      | some 0 | none => none
      | some d => some (d, p)).getD (0, 0)

/-- A decimal in positional notation, with a point and at least one digit on each side of it. -/
def positional (digits : Nat) (power : Int) : String :=
  let ds := Nat.toDigits 10 digits
  if 0 ≤ power then String.ofList (ds ++ List.replicate power.toNat '0' ++ ['.', '0'])
  else
    let places := (-power).toNat
    let padded := List.replicate (places + 1 - ds.length) '0' ++ ds
    let split := padded.length - places
    String.ofList (padded.take split ++ '.' :: padded.drop split)

/-- The text of a value: the fewest digits that read back, in positional notation. -/
def text (v : Binary64) : String :=
  let (digits, power) := v.shortest
  positional digits power

end Binary64

end Groom
