import Groom.Shell.Session

/-!
The texts that commands of the shell print: arguments with escapes, and formats with arguments.
-/
namespace Groom.Shell.Printing

/-- The value of an octal number of at most so many digits: the value and what follows. -/
def octal : (digits : Nat) → (value : Nat) → List Char → Nat × List Char
  | 0, value, cs => (value, cs)
  | _, value, [] => (value, [])
  | n + 1, value, c :: rest =>
    if '0' ≤ c ∧ c ≤ '7' then octal n (value * 8 + (c.toNat - 48)) rest else (value, c :: rest)

/-- The byte that a letter stands for after a backslash. -/
def escaped? : Char → Option UInt8
  | 'a' => some 7
  | 'b' => some 8
  | 'e' => some 27
  | 'f' => some 12
  | 'n' => some 10
  | 'r' => some 13
  | 't' => some 9
  | 'v' => some 11
  | '\\' => some 92
  | _ => none

/-- Reads what follows a backslash: the byte and what comes after it. A backslash that means nothing
stands for itself. -/
def escape (cs : List Char) : UInt8 × List Char :=
  match cs with
  | c :: rest =>
    match escaped? c with
    | some b => (b, rest)
    | none =>
      if '0' ≤ c ∧ c ≤ '7' then
        let (value, rest) := octal 3 0 cs
        (value.toUInt8, rest)
      else (byteOf '\\', cs)
  | [] => (byteOf '\\', [])

/-- A text with its escapes resolved, and whether it stops everything there. -/
def resolve : (fuel : Nat) → List Char → Bytes × Bool
  | 0, _ => ([], false)
  | _, [] => ([], false)
  | _ + 1, '\\' :: 'c' :: _ => ([], true)
  | fuel + 1, '\\' :: '0' :: rest =>
    let (value, rest) := octal 3 0 rest
    let (text, stopped) := resolve fuel rest
    (value.toUInt8 :: text, stopped)
  | fuel + 1, '\\' :: rest =>
    let (b, rest) := escape rest
    let (text, stopped) := resolve fuel rest
    (b :: text, stopped)
  | fuel + 1, c :: rest =>
    let (text, stopped) := resolve fuel rest
    (byteOf c :: text, stopped)

/-- A text with its escapes resolved, and whether it stops everything there. -/
def resolved (bs : Bytes) : Bytes × Bool := resolve (bs.length + 1) (charsOf bs)

def echo (args : List Bytes) : Bytes :=
  let silent := args.head? = some (Bytes.ofString "-n")
  let (text, stopped) := resolved (Bytes.joinWith 32 (if silent then args.drop 1 else args))
  if silent || stopped then text else text ++ [10]

/-- How a value is set into its field. -/
structure Layout where
  left : Bool := false
  plus : Bool := false
  blank : Bool := false
  mark : Bool := false
  zeros : Bool := false
  width : Nat := 0
  precision : Option Nat := none

namespace Layout

def flag (l : Layout) : Char → Layout
  | '-' => { l with left := true }
  | '+' => { l with plus := true }
  | ' ' => { l with blank := true }
  | '#' => { l with mark := true }
  | _ => { l with zeros := true }

/-- A layout with a width; a negative one sets the value to the left. -/
def withWidth (l : Layout) (width : Int) : Layout :=
  { l with left := l.left || width < 0, width := width.natAbs }

def fill (l : Layout) (bs : Bytes) : Bytes :=
  let blanks := List.replicate (l.width - bs.length) 32
  if l.left then bs ++ blanks else blanks ++ bs

/-- Sets digits with what stands in front of them. -/
def digits (l : Layout) (front digits : Bytes) : Bytes :=
  let digits := List.replicate ((l.precision.getD 0) - digits.length) 48 ++ digits
  if l.zeros && !l.left && l.precision.isNone then
    front ++ List.replicate (l.width - front.length - digits.length) 48 ++ digits
  else l.fill (front ++ digits)

def text (l : Layout) (bs : Bytes) : Bytes :=
  l.fill (match l.precision with
    | some n => bs.take n
    | none => bs)

end Layout

/-- A format at work: what is left of the arguments, what was written, the complaints, and whether
an argument was used. -/
structure Print where
  args : List Bytes
  written : Bytes := []
  complaints : List Bytes := []
  used : Bool := false

def Print.next (p : Print) : Option Bytes × Print :=
  (p.args.head?, { p with args := p.args.drop 1, used := true })

def Print.put (p : Print) (bs : Bytes) : Print := { p with written := p.written ++ bs }

/-- The digits of a number in some base. -/
def digitsOf (base n : Nat) : Bytes := (Nat.toDigits base n).map byteOf

/-- Reads the number at the start of a text, with a sign, in decimal, octal or hexadecimal digits:
its value and what follows. -/
def leading (cs : List Char) : Int × List Char :=
  let isSpace (c : Char) : Bool := c ∈ [' ', '\t', '\n', '\x0b', '\x0c', '\r']
  let (sign, ds) : Int × List Char := match cs.dropWhile isSpace with
    | '-' :: ds => (-1, ds)
    | '+' :: ds => (1, ds)
    | ds => (1, ds)
  let read (base : Nat) (ds : List Char) : Option (Int × List Char) :=
    let value (c : Char) : Nat :=
      if c.isDigit then c.toNat - 48 else if c.isLower then c.toNat - 87 else c.toNat - 55
    let isDigit (c : Char) : Bool := (c.isDigit || c.isAlpha) && value c < base
    let digits := ds.takeWhile isDigit
    if digits = [] then none
    else some (sign * (digits.foldl (fun n d => n * base + value d) 0 : Nat), ds.dropWhile isDigit)
  let found := match ds with
    | '0' :: x :: rest =>
      (if x = 'x' ∨ x = 'X' then read 16 rest else none).or (read 8 ds)
    | _ => read 10 ds
  found.getD (0, cs)

/-- Takes the next argument as a number; a quotation mark gives the number of what follows it. -/
def Print.number (p : Print) : Int × Print :=
  match p.next with
  | (none, p) => (0, p)
  | (some bs, p) =>
    match charsOf bs with
    | '"' :: rest | '\'' :: rest => ((rest.head?.map fun c => (c.toNat : Int)).getD 0, p)
    | cs =>
      let (n, rest) := leading cs
      let complaint := if rest = [] then none
        else if rest = cs then some ": expected numeric value"
        else some ": not completely converted"
      (n, { p with
        complaints := p.complaints ++ (complaint.map fun c => bs ++ Bytes.ofString c).toList })

/-- How a format goes on. -/
inductive Turn where
  | done (p : Print)
  /-- Nothing more is written. -/
  | stopped (p : Print)
  /-- The format is wrong. -/
  | wrong (p : Print) (message : Bytes)

/-- Writes the value that a directive asks for; `none` for a letter that asks for none. -/
def directive (p : Print) (l : Layout) (letter : Char) : Option Turn :=
  let unsigned (n : Int) : Nat := (n % 18446744073709551616).toNat
  match letter with
  | 's' =>
    let (bs, p) := p.next
    some (.done (p.put (l.text (bs.getD []))))
  | 'c' =>
    let (bs, p) := p.next
    some (.done (p.put (l.fill [((bs.getD []).head?).getD 0])))
  | 'b' =>
    let (bs, p) := p.next
    let (text, stopped) := resolved (bs.getD [])
    let p := p.put (l.text text)
    some (if stopped then .stopped p else .done p)
  | 'd' | 'i' =>
    let (n, p) := p.number
    let sign := if n < 0 then [byteOf '-'] else if l.plus then [byteOf '+']
      else if l.blank then [byteOf ' '] else []
    some (.done (p.put (l.digits sign (digitsOf 10 n.natAbs))))
  | 'u' =>
    let (n, p) := p.number
    some (.done (p.put (l.digits [] (digitsOf 10 (unsigned n)))))
  | 'o' =>
    let (n, p) := p.number
    let ds := digitsOf 8 (unsigned n)
    some (.done (p.put (l.digits [] (if l.mark && ds.head? ≠ some 48 then 48 :: ds else ds))))
  | 'x' | 'X' =>
    let (n, p) := p.number
    let ds := digitsOf 16 (unsigned n)
    let ds := if letter = 'X' then ds.map fun b => if 97 ≤ b then b - 32 else b else ds
    let front := if l.mark && n ≠ 0 then [48, byteOf letter] else []
    some (.done (p.put (l.digits front ds)))
  | _ => none

/-- Reads a number of the layout, or takes it from the arguments at a star. -/
def measure (p : Print) (cs : List Char) : Option Int × Print × List Char :=
  match cs with
  | '*' :: rest =>
    let (n, p) := p.number
    (some n, p, rest)
  | cs =>
    let ds := cs.takeWhile Char.isDigit
    ((String.ofList ds).toNat?.map Int.ofNat, p, cs.drop ds.length)

def pass : (fuel : Nat) → Print → List Char → Turn
  | 0, p, _ => .done p
  | _, p, [] => .done p
  | fuel + 1, p, '\\' :: rest =>
    let (b, rest) := escape rest
    pass fuel (p.put [b]) rest
  | fuel + 1, p, '%' :: '%' :: rest => pass fuel (p.put [byteOf '%']) rest
  | fuel + 1, p, '%' :: rest =>
    let isFlag (c : Char) : Bool := c ∈ ['#', '-', '+', ' ', '0']
    let l : Layout := (rest.takeWhile isFlag).foldl Layout.flag {}
    let (width, p, after) := measure p (rest.dropWhile isFlag)
    let l := l.withWidth (width.getD 0)
    let (l, p, after) := match after with
      | '.' :: after =>
        let (precision, p, after) := measure p after
        ({ l with precision := if precision.any (· < 0) then none
          else some ((precision.getD 0).toNat) }, p, after)
      | after => (l, p, after)
    match after with
    | [] => .wrong p (Bytes.ofString "missing format character")
    | letter :: after =>
      match directive p l letter with
      | some (.done p) => pass fuel p after
      | some turn => turn
      | none =>
        let shown := ('%' :: rest).take (rest.length + 1 - after.length)
        .wrong p (shown.map byteOf ++ Bytes.ofString ": invalid directive")
  | fuel + 1, p, c :: rest => pass fuel (p.put [byteOf c]) rest

/-- The passes over a format: it is used again while arguments are left. -/
def passes (format : Bytes) : (fuel : Nat) → Print → Turn
  | 0, p => .done p
  | fuel + 1, p =>
    match pass (format.length + 1) p (charsOf format) with
    | .done p =>
      if p.used ∧ p.args ≠ [] then passes format fuel { p with used := false } else .done p
    | turn => turn

def printed (format : Bytes) (args : List Bytes) : Turn :=
  passes format (args.length + 1) { args }

end Groom.Shell.Printing
