import Groom.Toml.Quoted
import Groom.Toml.Value

/-!
The values that are written without quotes or brackets: truth values, numbers, dates and times.
-/
namespace Groom.Toml

namespace Digits

/-- The value of a digit in a base up to sixteen. -/
def digit? (base : Nat) (c : Char) : Option Nat :=
  (hexDigit? c).bind fun d => if d < base then some d else none

/-- Reads digits to the end; one underscore may stand between two digits. -/
def value? (base : Nat) : (before : Nat) → (between : Bool) → List Char → Option Nat
  | before, between, [] => if between then some before else none
  | before, between, '_' :: rest => if between then value? base before false rest else none
  | before, _, c :: rest =>
    match digit? base c with
    | some d => value? base (before * base + d) true rest
    | none => none

def number? (base : Nat) (cs : List Char) : Option Nat := value? base 0 false cs

/-- Reads a decimal number that does not begin with a needless zero. -/
def whole? : List Char → Option Nat
  | '0' :: _ :: _ => none
  | cs => number? 10 cs

def exactly? (count : Nat) (cs : List Char) : Option (Nat × List Char) :=
  let ds := cs.take count
  if ds.length = count ∧ ds.all Char.isDigit then
    (number? 10 ds).map fun n => (n, cs.drop count)
  else none

end Digits

namespace Scalar

/-- Splits a sign off a number: whether it is a minus, and the rest. -/
def sign : List Char → Bool × List Char
  | '-' :: rest => (true, rest)
  | '+' :: rest => (false, rest)
  | rest => (false, rest)

/-- Whether underscores stand only between characters of a kind. What comes in front of the first
underscore is not looked at if it is the first character, which may be a sign. -/
def isSpaced (isDigit : Char → Bool) : (before : Bool) → List Char → Bool
  | _, [] => true
  | before, '_' :: rest => before && rest.head?.any isDigit && isSpaced isDigit false rest
  | _, c :: rest => isSpaced isDigit (isDigit c) rest

/-- Drops the underscores of a number; `none` if one stands where it may not. -/
def unspaced? (isDigit : Char → Bool) : List Char → Option (List Char)
  | [] => some []
  | c :: rest =>
    if c ≠ '_' ∧ isSpaced isDigit true rest then some ((c :: rest).filter (· ≠ '_')) else none

def isHex (c : Char) : Bool := (hexDigit? c).isSome

/-- Reads the digits of an integer in a base other than ten. Without digits it is no number. -/
def based? (base : Nat) (cs : List Char) : Option Value :=
  if cs = [] then some (.integer none)
  else (Digits.number? base cs).map fun n => .integer (some n)

/-- Reads an integer in base ten. After an underscore whatever has hexadecimal digits next to the
underscores is taken; it may turn out to be no number. -/
def integer? (cs : List Char) : Option Value :=
  match (sign cs).2, unspaced? isHex cs with
  | [], _ | _, none | '0' :: _ :: _, _ => none
  | _, some ds =>
    let (negative, digits) := sign ds
    let n := Digits.number? 10 digits
    some (.integer (n.map fun n => if negative then -(n : Int) else n))

def countDigits (cs : List Char) : Nat := (cs.filter Char.isDigit).length

def exponent? (cs : List Char) : Option Int :=
  let (negative, digits) := sign cs
  (Digits.number? 10 digits).map fun n => if negative then -(n : Int) else n

/-- Reads the digits of a number, after its sign and with or without a point. -/
def significand? (cs : List Char) : Option (Nat × Int) :=
  let whole := cs.takeWhile (· ≠ '.')
  match cs.dropWhile (· ≠ '.') with
  | [] => (Digits.whole? whole).map fun n => (n, 0)
  | _ :: part => do
    let _ ← Digits.whole? whole
    let _ ← Digits.number? 10 part
    let n ← Digits.number? 10 (whole ++ part)
    return (n, -(countDigits part : Int))

def isMark (c : Char) : Bool := c = 'e' ∨ c = 'E'

/-- Reads a floating-point number, which has a point, an exponent or both. -/
def float? (cs : List Char) : Option Real := do
  let (negative, body) := sign (← unspaced? Char.isDigit cs)
  let (n, e) ← significand? (body.takeWhile (!isMark ·))
  match body.dropWhile (!isMark ·) with
  | [] => return .finite negative (Binary64.ofDecimal? n e)
  | _ :: back =>
    let shift ← exponent? back
    return .finite negative (Binary64.ofDecimal? n (e + shift))

/-- Whether a year has a 29th of February. -/
def isLeap (year : Nat) : Bool := year % 4 = 0 ∧ (year % 100 ≠ 0 ∨ year % 400 = 0)

def daysIn (year month : Nat) : Nat :=
  match month with
  | 2 => if isLeap year then 29 else 28
  | 4 | 6 | 9 | 11 => 30
  | _ => 31

/-- A number with so many digits at least. -/
def padded (width n : Nat) : String :=
  let ds := Nat.toDigits 10 n
  String.ofList (List.replicate (width - ds.length) '0' ++ ds)

/-- Reads a date: its text and what follows. -/
def date? (cs : List Char) : Option (String × List Char) := do
  let (year, cs) ← Digits.exactly? 4 cs
  let '-' :: cs := cs | none
  let (month, cs) ← Digits.exactly? 2 cs
  let '-' :: cs := cs | none
  let (day, cs) ← Digits.exactly? 2 cs
  if 1 ≤ month ∧ month ≤ 12 ∧ 1 ≤ day ∧ day ≤ daysIn year month then
    return (s!"{padded 4 year}-{padded 2 month}-{padded 2 day}", cs)
  else none

/-- The fraction of a second: nine digits at most, without zeros at the end. -/
def fractionText (ds : List Char) : String :=
  match ((ds.take 9).reverse.dropWhile (· = '0')).reverse with
  | [] => ""
  | ds => "." ++ String.ofList ds

/-- Reads the seconds of a time, which may be left out: their text and what follows. -/
def seconds? : List Char → Option (String × List Char)
  | ':' :: cs => do
    let (second, cs) ← Digits.exactly? 2 cs
    if 60 < second then none
    else match cs with
      | '.' :: cs =>
        match cs.takeWhile Char.isDigit with
        | [] => none
        | ds => return (s!"{padded 2 second}{fractionText ds}", cs.dropWhile Char.isDigit)
      | cs => return (padded 2 second, cs)
  | cs => some ("00", cs)

/-- Reads a time of day: its text and what follows. -/
def time? (cs : List Char) : Option (String × List Char) := do
  let (hour, cs) ← Digits.exactly? 2 cs
  let ':' :: cs := cs | none
  let (minute, cs) ← Digits.exactly? 2 cs
  let (seconds, cs) ← seconds? cs
  if hour ≤ 23 ∧ minute ≤ 59 then return (s!"{padded 2 hour}:{padded 2 minute}:{seconds}", cs)
  else none

/-- Reads the distance of a zone to the end: its text. -/
def offset? : List Char → Option String
  | [] => some ""
  | ['Z'] | ['z'] => some "Z"
  | c :: cs => do
    if c ≠ '+' ∧ c ≠ '-' then none
    let (hour, cs) ← Digits.exactly? 2 cs
    let ':' :: cs := cs | none
    let (minute, cs) ← Digits.exactly? 2 cs
    if cs ≠ [] ∨ 23 < hour ∨ 59 < minute then none
    let side := if c = '-' ∧ (hour, minute) ≠ (0, 0) then "-" else "+"
    return s!"{side}{padded 2 hour}:{padded 2 minute}"

/-- Reads a date, a time or both to the end: the text in its usual form. -/
def moment? (cs : List Char) : Option String :=
  match date? cs with
  | some (date, []) => some date
  | some (date, c :: cs) => do
    if c ≠ 'T' ∧ c ≠ 't' ∧ c ≠ ' ' then none
    let (time, cs) ← time? cs
    let offset ← offset? cs
    return s!"{date}T{time}{offset}"
  | none => do
    let (time, cs) ← time? cs
    if cs ≠ [] then none
    return time

/-- Reads a number, a date or a time to the end. What follows the first digits tells which it is. -/
def quantity? (cs : List Char) : Option Value :=
  let body := (sign cs).2
  let rest := body.dropWhile Char.isDigit
  if rest.head? = some '-' ∨ rest.head? = some ':' ∨ ' ' ∈ rest then (moment? cs).map .moment
  else if rest.any fun c => c = '.' ∨ isMark c then (float? cs).map .float
  else if rest = [] ∨ rest.head? = some '_' then integer? cs
  else none

def value? (cs : List Char) : Option Value :=
  match cs with
  | ['t', 'r', 'u', 'e'] => some (.boolean true)
  | ['f', 'a', 'l', 's', 'e'] => some (.boolean false)
  | '0' :: 'x' :: ds => based? 16 ds
  | '0' :: 'o' :: ds => based? 8 ds
  | '0' :: 'b' :: ds => based? 2 ds
  | _ =>
    let (negative, body) := sign cs
    if body = ['i', 'n', 'f'] then some (.float (.infinite negative))
    else if body = ['n', 'a', 'n'] then some (.float .nan)
    else quantity? cs

/-- Whether a character may stand in such a value; all but those that part values may. -/
def isPart (c : Char) : Bool := c ∉ ['=', ',', '[', ']', '{', '}', ' ', '\t', '#', '\r', '\n']

/-- Whether a text looks like a date alone. -/
def isDate (cs : List Char) : Bool := cs.length = 10 ∧ (date? cs).isSome

/-- Whether the text after a blank looks like a time. -/
def beginsTime : List Char → Bool
  | a :: b :: ':' :: _ => a.isDigit ∧ b.isDigit
  | _ => false

/-- Scans a value: the value and what follows. A blank may part a date from its time. -/
def scan? (cs : List Char) : Option (Value × List Char) :=
  let first := cs.takeWhile isPart
  let rest := cs.dropWhile isPart
  match rest with
  | ' ' :: more =>
    if isDate first ∧ beginsTime more then
      (value? (first ++ ' ' :: more.takeWhile isPart)).map (·, more.dropWhile isPart)
    else (value? first).map (·, rest)
  | _ => (value? first).map (·, rest)

end Scalar

end Groom.Toml
