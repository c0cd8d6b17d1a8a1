import Groom.Shell.Session

/-!
Arithmetic expressions: whole numbers of 64 bits with sign, variables, and assignments to them.
-/
namespace Groom.Shell.Arithmetic

/-- A token of an expression. -/
inductive Lexeme where
  | number (value : Int)
  | name (text : String)
  | operator (text : String)
  /-- The end of the expression, or a character that has no place in it. -/
  | none
  deriving DecidableEq

/-- A whole number cut down to 64 bits. -/
def wrap (n : Int) : Int := (Int64.ofInt n).toInt

def digit? (c : Char) : Option Nat :=
  if c.isDigit then some (c.toNat - 48)
  else if 'a' ≤ c ∧ c ≤ 'f' then some (c.toNat - 87)
  else if 'A' ≤ c ∧ c ≤ 'F' then some (c.toNat - 55)
  else none

/-- Whether a character is a digit of a number with some base. -/
def isDigit (base : Nat) (c : Char) : Bool := (digit? c).any (· < base)

/-- The value of digits, not above the greatest number. -/
def value (base : Nat) (ds : List Char) : Int :=
  min (ds.foldl (fun n d => n * base + (digit? d).getD 0) 0 : Nat) 9223372036854775807

/-- Reads a number without sign, in decimal, octal or hexadecimal digits: its value and what
follows. -/
def natural? (cs : List Char) : Option (Int × List Char) :=
  let read (base : Nat) (cs : List Char) : Int × List Char :=
    (value base (cs.takeWhile (isDigit base)), cs.dropWhile (isDigit base))
  match cs with
  | '0' :: x :: d :: rest =>
    if (x = 'x' ∨ x = 'X') ∧ isDigit 16 d then some (read 16 (d :: rest)) else some (read 8 cs)
  | '0' :: _ => some (read 8 cs)
  | c :: _ => if c.isDigit then some (read 10 cs) else none
  | [] => none

/-- Whether a character is a blank or a line end. -/
def isSpace (c : Char) : Bool := c ∈ [' ', '\t', '\n', '\x0b', '\x0c', '\r']

/-- The operators, those first that begin like others. -/
def operators : List String :=
  ["<<=", ">>=", "||", "&&", "==", "!=", "<=", ">=", "<<", ">>", "|=", "&=", "^=", "+=", "-=",
    "*=", "/=", "%=", "|", "&", "^", "=", "!", "<", ">", "+", "-", "*", "/", "%", "~", "?", ":",
    "(", ")"]

def lexeme (cs : List Char) : Lexeme × List Char :=
  let cs := cs.dropWhile isSpace
  match natural? cs with
  | some (n, rest) => (.number n, rest)
  | none =>
    if cs.head?.any beginsName then
      (.name (String.ofList (cs.takeWhile inName)), cs.dropWhile inName)
    else match operators.find? fun op => op.toList.isPrefixOf cs with
      | some op => (.operator op, cs.drop op.length)
      | none => (.none, cs)

/-- What is left of an expression: the next token and what follows it. -/
structure Rest where
  whole : Bytes
  next : Lexeme
  after : List Char

abbrev Sum := StateT Rest Script

/-- Stops with a message about the whole expression. -/
def stop {α : Type} (message : String) : Sum α := do
  let r ← get
  fault (Bytes.ofString ("arithmetic expression: " ++ message ++ ": \"") ++ r.whole ++
    Bytes.ofString "\"")

def advance : Sum Unit :=
  modify fun r =>
    let (next, after) := lexeme r.after
    { r with next, after }

/-- The number that a text writes; an empty text counts as zero. -/
def ofText? (bs : Bytes) : Option Int :=
  let cs := (charsOf bs).dropWhile isSpace
  let (sign, ds) : Int × List Char := match cs with
    | '-' :: ds => (-1, ds)
    | '+' :: ds => (1, ds)
    | ds => (1, ds)
  match natural? ds with
  | some (n, rest) => if rest.all isSpace then some (sign * n) else none
  | none => if cs = [] then some 0 else none

def look (name : String) : Sum Int := do
  let text := ((← getThe Session).value? name).getD []
  match ofText? text with
  | some n => return n
  | none => illegalNumber text

def ofBool (b : Bool) : Int := if b then 1 else 0

/-- The value of an operator on two numbers. -/
def apply (op : String) (a b : Int) : Sum Int := do
  let bits (f : Int64 → Int64 → Int64) : Int := (f (Int64.ofInt a) (Int64.ofInt b)).toInt
  match op with
  | "*" => return wrap (a * b)
  | "/" => if b = 0 then stop "division by zero" else return wrap (a.tdiv b)
  | "%" => if b = 0 then stop "division by zero" else return wrap (a.tmod b)
  | "+" => return wrap (a + b)
  | "-" => return wrap (a - b)
  | "<<" => return bits (· <<< ·)
  | ">>" => return bits (· >>> ·)
  | "<" => return ofBool (a < b)
  | "<=" => return ofBool (a ≤ b)
  | ">" => return ofBool (a > b)
  | ">=" => return ofBool (a ≥ b)
  | "==" => return ofBool (a = b)
  | "!=" => return ofBool (a ≠ b)
  | "&" => return bits (· &&& ·)
  | "^" => return bits (· ^^^ ·)
  | "|" => return bits (· ||| ·)
  | _ => return b

/-- The operators between two numbers, those that bind least first. -/
def levels : List (List String) :=
  [["|"], ["^"], ["&"], ["==", "!="], ["<", "<=", ">", ">="], ["<<", ">>"], ["+", "-"],
    ["*", "/", "%"]]

def assignment? : Lexeme → Option String
  | .operator op =>
    if op = "=" then some ""
    else if op ∈ ["<<=", ">>=", "|=", "&=", "^=", "+=", "-=", "*=", "/=", "%="] then
      some (String.ofList op.toList.dropLast)
    else none
  | _ => none

mutual

/-- Evaluates an expression; if `idle`, nothing is looked up and assigned. -/
def assignment : (fuel : Nat) → (idle : Bool) → Sum Int
  | 0, _ => stop "expecting primary"
  | fuel + 1, idle => do
    let before ← get
    match before.next with
    | .name name =>
      advance
      match assignment? (← get).next with
      | none =>
        set before
        condition fuel idle
      | some op =>
        advance
        let b ← assignment fuel idle
        if idle then return b
        else
          let result ← if op = "" then pure b else do apply op (← look name) b
          assign name (Bytes.ofString (toString result))
          return result
    | _ => condition fuel idle

def condition : (fuel : Nat) → (idle : Bool) → Sum Int
  | 0, _ => stop "expecting primary"
  | fuel + 1, idle => do
    let a ← disjunction fuel idle
    if (← get).next = .operator "?" then
      advance
      let yes ← assignment fuel (idle || a = 0)
      if (← get).next ≠ .operator ":" then stop "expecting \x27:\x27"
      advance
      let no ← condition fuel (idle || a ≠ 0)
      return if a ≠ 0 then yes else no
    else return a

/-- Evaluates alternatives, of which the first true one decides. -/
def disjunction : (fuel : Nat) → (idle : Bool) → Sum Int
  | 0, _ => stop "expecting primary"
  | fuel + 1, idle => do
    let a ← conjunction fuel idle
    if (← get).next = .operator "||" then
      advance
      let b ← disjunction fuel (idle || a ≠ 0)
      return ofBool (a ≠ 0 || b ≠ 0)
    else return a

/-- Evaluates conditions, of which the first false one decides. -/
def conjunction : (fuel : Nat) → (idle : Bool) → Sum Int
  | 0, _ => stop "expecting primary"
  | fuel + 1, idle => do
    let a ← binary fuel idle levels
    if (← get).next = .operator "&&" then
      advance
      let b ← conjunction fuel (idle || a = 0)
      return ofBool (a ≠ 0 && b ≠ 0)
    else return a

/-- Evaluates operands joined by the operators of some levels. -/
def binary : (fuel : Nat) → (idle : Bool) → List (List String) → Sum Int
  | 0, _, _ => stop "expecting primary"
  | fuel + 1, idle, [] => primary fuel idle
  | fuel + 1, idle, ops :: higher => do
    let a ← binary fuel idle higher
    further fuel idle ops higher a

/-- Evaluates the further operands of a level, from left to right. -/
def further : (fuel : Nat) → (idle : Bool) → List String → List (List String) → Int → Sum Int
  | 0, _, _, _, _ => stop "expecting primary"
  | fuel + 1, idle, ops, higher, a => do
    match (← get).next with
    | .operator op =>
      if op ∈ ops then
        advance
        let b ← binary fuel idle higher
        further fuel idle ops higher (← if idle then pure b else apply op a b)
      else return a
    | _ => return a

def primary : (fuel : Nat) → (idle : Bool) → Sum Int
  | 0, _ => stop "expecting primary"
  | fuel + 1, idle => do
    match (← get).next with
    | .number n =>
      advance
      return n
    | .name name =>
      advance
      if idle then return 0 else look name
    | .operator "(" =>
      advance
      let a ← assignment fuel idle
      if (← get).next ≠ .operator ")" then stop "expecting \x27)\x27"
      advance
      return a
    | .operator "+" =>
      advance
      primary fuel idle
    | .operator "-" =>
      advance
      return wrap (-(← primary fuel idle))
    | .operator "!" =>
      advance
      return ofBool ((← primary fuel idle) = 0)
    | .operator "~" =>
      advance
      return -(← primary fuel idle) - 1
    | _ => stop "expecting primary"

end

def evaluate (text : Bytes) : Script Int := do
  let (next, after) := lexeme (charsOf text)
  let work : Sum Int := do
    let n ← assignment (16 * text.length + 64) false
    if (← get).next ≠ .none ∨ (← get).after.any (!isSpace ·) then stop "expecting EOF"
    return n
  return (← work.run ⟨text, next, after⟩).1

end Groom.Shell.Arithmetic
