import Groom.Alphabetic
import Groom.Blank
import Groom.Expression.Node

/-!
Reading a regular expression character by character, and the escapes in it.
-/
namespace Groom.Expression

/-- How far a text is read. -/
structure Cursor where
  rest : List Char
  place : Place := {}
  /-- Whether blanks and comments are passed over. -/
  loose : Bool := false
  /-- The names of the groups so far. -/
  names : List (String × Span) := []

/-- Reads some of a text, or finds a fault. -/
abbrev Reader := StateT Cursor (Except Fault)

namespace Reader

def fail {α : Type} (cause : Cause) (span : Span) (earlier : Option Span := none) : Reader α :=
  throw ⟨cause, span, earlier⟩

def here : Reader Place := return (← get).place

def peek? : Reader (Option Char) := return (← get).rest.head?

def atEnd : Reader Bool := return (← get).rest.isEmpty

def point : Reader Span := return ⟨← here, ← here⟩

/-- The stretch from a place up to the next character. -/
def since (start : Place) : Reader Span := return ⟨start, ← here⟩

def character : Reader Span := do
  let c ← get
  return ⟨c.place, (c.rest.head?.map c.place.after).getD c.place⟩

def advance : Reader Unit := modify fun c =>
  match c.rest with
  | [] => c
  | d :: rest => { c with rest, place := c.place.after d }

def skip : Nat → Reader Unit
  | 0 => return
  | n + 1 => do
    advance
    skip n

/-- Passes over a text if it comes next. -/
def take (text : String) : Reader Bool := do
  if text.toList.isPrefixOf (← get).rest then
    skip text.length
    return true
  else return false

/-- Passes over blanks and comments: the place behind them and what follows. -/
def gap (inComment : Bool) (place : Place) : List Char → Place × List Char
  | [] => (place, [])
  | c :: rest =>
    if inComment then gap (c ≠ '\n') (place.after c) rest
    else if isBlank c then gap false (place.after c) rest
    else if c = '#' then gap true (place.after c) rest
    else (place, c :: rest)

/-- Passes over blanks and comments where they mean nothing. -/
def blanks : Reader Unit := modify fun c =>
  if c.loose then
    let (place, rest) := gap false c.place c.rest
    { c with rest, place }
  else c

/-- Passes over the next character and what means nothing behind it. -/
def step : Reader Unit := do
  advance
  blanks

/-- What follows the next character. A comment is taken to end at its first character that is not
blank. -/
def following : (inComment : Bool) → List Char → Option Char
  | _, [] => none
  | inComment, c :: rest =>
    if isBlank c then following inComment rest
    else if !inComment ∧ c = '#' then following true rest
    else some c

/-- The character behind the next one, where blanks and comments may mean nothing. -/
def second? : Reader (Option Char) := do
  let c ← get
  let rest := c.rest.tail
  return if c.loose then (following false rest).or rest.head? else rest.head?

/-- The number of steps that reading the rest takes at most. -/
def bound : Reader Nat := return (← get).rest.length + 1

/-- Passes over characters of a kind: those characters. -/
def takeWhile (accepts : Char → Bool) (move : Reader Unit) : (fuel : Nat) → Reader (List Char)
  | 0 => return []
  | fuel + 1 => do
    match ← peek? with
    | some c =>
      if accepts c then
        move
        return c :: (← takeWhile accepts move fuel)
      else return []
    | none => return []

def isDecimal (c : Char) : Bool := '0' ≤ c && c ≤ '9'

/-- Reads a number, with blanks around it. The fault of one that cannot be read may be overtaken by
another. -/
def decimal : Reader (Except Fault Nat) := do
  let _ ← takeWhile isBlank advance (← bound)
  let start ← here
  let digits ← takeWhile isDecimal step (← bound)
  let span ← since start
  let _ ← takeWhile isBlank step (← bound)
  if digits = [] then return .error ⟨.countEmpty, span, none⟩
  let n := digits.foldl (fun n d => n * 10 + (d.toNat - 48)) 0
  return if n < 4294967296 then .ok n else .error ⟨.decimalInvalid, span, none⟩

def hexDigit? (c : Char) : Option Nat :=
  if '0' ≤ c ∧ c ≤ '9' then some (c.toNat - 48)
  else if 'a' ≤ c ∧ c ≤ 'f' then some (c.toNat - 87)
  else if 'A' ≤ c ∧ c ≤ 'F' then some (c.toNat - 55)
  else none

/-- The character whose code point has some hexadecimal digits. -/
def ofHex (digits : List Nat) (span : Span) : Reader Char := do
  let n := digits.foldl (fun n d => n * 16 + d) 0
  if h : n.isValidChar then return Char.ofNatAux n h else fail .hexInvalid span

/-- Reads so many hexadecimal digits; `first` tells that none was read before. -/
def hexDigits (first : Bool) : Nat → Reader (List Nat)
  | 0 => return []
  | n + 1 => do
    if !first then
      step
    match ← peek? with
    | none => fail .escapeUnfinished (← point)
    | some c =>
      match hexDigit? c with
      | none => fail .hexDigit (← character)
      | some d => return d :: (← hexDigits false n)

/-- Reads hexadecimal digits up to a closing brace. -/
def bracedDigits (brace : Place) : (fuel : Nat) → Reader (List Nat)
  | 0 => return []
  | fuel + 1 => do
    step
    match ← peek? with
    | none => fail .escapeUnfinished (← since brace)
    | some '}' => return []
    | some c =>
      match hexDigit? c with
      | none => fail .hexDigit (← character)
      | some d => return d :: (← bracedDigits brace fuel)

/-- Reads a character given by hexadecimal digits, from the letter on that tells how many. -/
def hex (start : Place) (count : Nat) : Reader Literal := do
  step
  match ← peek? with
  | none => fail .escapeUnfinished (← point)
  | some '{' =>
    let brace ← here
    let inside := (← character).stop
    let digits ← bracedDigits brace (← bound)
    let span ← since inside
    step
    if digits = [] then fail .hexEmpty (← since brace)
    let c ← ofHex digits span
    return ⟨← since start, c, false⟩
  | some _ =>
    let first ← here
    let digits ← hexDigits true count
    step
    let c ← ofHex digits (← since first)
    return ⟨← since start, c, count = 2⟩

/-- Reads the name of a property, from the letter on that announces it. -/
def property : Reader String := do
  step
  match ← peek? with
  | none => fail .escapeUnfinished (← point)
  | some '{' =>
    step
    let name ← takeWhile (· ≠ '}') step (← bound)
    if ← atEnd then fail .escapeUnfinished (← point)
    advance
    return String.ofList name
  | some '\\' => fail .propertyInvalid (← character)
  | some c =>
    step
    return c.toString

/-- Whether a character may stand in the name of a special assertion. -/
def isBoundaryPart (c : Char) : Bool := c.isAlpha ∨ c = '-'

def boundary? : String → Option Assertion
  | "start" => some .wordStart
  | "end" => some .wordEnd
  | "start-half" => some .wordStartHalf
  | "end-half" => some .wordEndHalf
  | _ => none

/-- Reads what may follow the sign of a word boundary: the name of a special one between braces. A
brace with a count is left to be read as such. -/
def boundary (start : Place) : Reader Assertion := do
  if (← peek?) ≠ some '{' then return .word
  let before ← get
  step
  match ← peek? with
  | none => fail .boundaryUnfinished (← since start)
  | some c =>
    if !isBoundaryPart c then
      set before
      return .word
    let inside ← here
    let name ← takeWhile isBoundaryPart step (← bound)
    if (← peek?) ≠ some '}' then fail .boundaryUnclosed (← since before.place)
    let span ← since inside
    advance
    match boundary? (String.ofList name) with
    | some assertion => return assertion
    | none => fail .boundaryUnknown span

/-- What one character stands for after a backslash. -/
def special? : Char → Option Char
  | 'a' => some '\x07'
  | 'f' => some '\x0c'
  | 't' => some '\t'
  | 'n' => some '\n'
  | 'r' => some '\r'
  | 'v' => some '\x0b'
  | _ => none

/-- Whether a character stands for itself after a backslash. -/
def isEscapable (c : Char) : Bool :=
  c.toNat < 128 ∧ !c.isAlphanum ∧ c ≠ '<' ∧ c ≠ '>'

def escape : Reader Node := do
  let start ← here
  advance
  match ← peek? with
  | none => fail .escapeUnfinished (← since start)
  | some 'x' => return .literal (← hex start 2)
  | some 'u' => return .literal (← hex start 4)
  | some 'U' => return .literal (← hex start 8)
  | some 'p' | some 'P' =>
    let name ← property
    return .property (← since start) name
  | some c =>
    if isDecimal c then fail .backReference ⟨start, (← character).stop⟩
    advance
    let span ← since start
    if isEscapable c then return .literal ⟨span, c, false⟩
    match special? c with
    | some d => return .literal ⟨span, d, false⟩
    | none =>
      match c with
      | 'd' | 'D' => return .letter span .digit (c = 'D')
      | 's' | 'S' => return .letter span .space (c = 'S')
      | 'w' | 'W' => return .letter span .word (c = 'W')
      | 'A' => return .look span .textStart
      | 'z' => return .look span .textEnd
      | 'B' => return .look span .notWord
      | '<' => return .look span .wordStart
      | '>' => return .look span .wordEnd
      | 'b' =>
        let assertion ← boundary start
        return .look (← since start) assertion
      | _ => fail .escapeUnknown span

end Reader

end Groom.Expression
