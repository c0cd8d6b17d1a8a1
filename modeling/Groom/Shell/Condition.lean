import Groom.Shell.Session

/-!
Conditions on texts, numbers and files, as they are given to the command `test`.
-/
namespace Groom.Shell.Condition

def unary : List String :=
  ["-r", "-w", "-x", "-e", "-f", "-d", "-c", "-b", "-p", "-u", "-g", "-k", "-s", "-t", "-z", "-n",
    "-h", "-O", "-G", "-L", "-S"]

def binary : List String :=
  ["=", "!=", "<", ">", "-eq", "-ne", "-ge", "-gt", "-le", "-lt", "-nt", "-ot", "-ef"]

/-- What a word stands for in a condition. -/
inductive Role where
  | operand
  | unary (op : String)
  | binary (op : String)
  | not
  | and
  | or
  | opening
  | closing
  | missing
  deriving DecidableEq

def role? (w : Bytes) : Option Role :=
  let text := String.ofList (charsOf w)
  if text ∈ unary then some (.unary text)
  else if text ∈ binary then some (.binary text)
  else match text with
    | "!" => some .not
    | "-a" => some .and
    | "-o" => some .or
    | "(" => some .opening
    | ")" => some .closing
    | _ => none

/-- Whether a word is an operator with two operands. -/
def isBinary (w : Bytes) : Bool :=
  match role? w with
  | some (.binary _) => true
  | _ => false

/-- What the first of some words stands for. An operator without operands is an operand itself. -/
def roleOf : List Bytes → Role
  | [] => .missing
  | w :: rest =>
    match role? w with
    | none => .operand
    | some (.unary op) =>
      match rest with
      | [] => .operand
      | [_] => .unary op
      | next :: _ => if isBinary next then .operand else .unary op
    | some .opening => if rest = [] then .operand else .opening
    | some role => role

/-- A step of checking: the first of the words left is the one that was looked at last. -/
abbrev Check := StateT (List Bytes) (Except Bytes)

def fail {α : Type} (subject : Bytes) (message : String) : Check α :=
  let front := if subject = [] then [] else subject ++ Bytes.ofString ": "
  throw (front ++ Bytes.ofString message)

/-- Goes on by some words; what the first word left then stands for. -/
def move (count : Nat) : Check Role := do
  modify fun ws => ws.drop count
  return roleOf (← get)

def number (w : Bytes) : Check Int :=
  match integer? w with
  | some n =>
    if -9223372036854775808 ≤ n ∧ n < 9223372036854775808 then return n else refuse
  | none => refuse
where
  refuse : Check Int := throw (Bytes.ofString "Illegal number: " ++ w)

/-- The test of an operator on one operand. -/
def one (fs : FileSystem) (op : String) (w : Bytes) : Check Bool := do
  let found := fs.status ⟨w⟩
  match op with
  | "-z" => return w = []
  | "-n" => return w ≠ []
  | "-f" => return fs.isFile ⟨w⟩
  | "-d" => return fs.isDirectory ⟨w⟩
  | "-e" | "-r" | "-w" | "-O" | "-G" => return found.isOk
  | "-x" =>
    return match found with
      | .ok (.file _ executable) => executable
      | .ok .device => false
      | .ok _ => true
      | .error _ => false
  | "-s" =>
    return match found with
      | .ok (.file content _) => content ≠ []
      | .ok .device => false
      | .ok _ => true
      | .error _ => false
  | "-c" => return match found with
      | .ok .device => true
      | _ => false
  | "-h" | "-L" =>
    return match fs.linkStatus ⟨w⟩ with
      | .ok (.link _) => true
      | _ => false
  | "-t" =>
    let _ ← number w
    return false
  | _ => return false

/-- The test of an operator on two operands. -/
def two (fs : FileSystem) (op : String) (a b : Bytes) : Check Bool := do
  match op with
  | "=" => return a = b
  | "!=" => return a ≠ b
  | "<" => return a < b
  | ">" => return b < a
  | "-eq" => return (← number a) = (← number b)
  | "-ne" => return (← number a) ≠ (← number b)
  | "-ge" => return (← number a) ≥ (← number b)
  | "-gt" => return (← number a) > (← number b)
  | "-le" => return (← number a) ≤ (← number b)
  | "-lt" => return (← number a) < (← number b)
  | "-ef" =>
    return match fs.resolve .follow ⟨a⟩, fs.resolve .follow ⟨b⟩ with
      | .ok (.entry p _), .ok (.entry q _) => p = q
      | _, _ => false
  -- all files are of the same age
  | _ => return false

mutual

/-- Checks alternatives; `role` is that of the first word. -/
def oneOf (fs : FileSystem) : (fuel : Nat) → Role → Check Bool
  | 0, _ => return false
  | fuel + 1, role => do
    let a ← allOf fs fuel role
    if roleOf ((← get).drop 1) = .or then
      let b ← oneOf fs fuel (← move 2)
      return a || b
    else return a

def allOf (fs : FileSystem) : (fuel : Nat) → Role → Check Bool
  | 0, _ => return false
  | fuel + 1, role => do
    let a ← maybeNot fs fuel role
    if roleOf ((← get).drop 1) = .and then
      let b ← allOf fs fuel (← move 2)
      return a && b
    else return a

def maybeNot (fs : FileSystem) : (fuel : Nat) → Role → Check Bool
  | 0, _ => return false
  | fuel + 1, role => do
    if role = .not then
      let next := roleOf ((← get).drop 1)
      if next ≠ .missing then modify (·.drop 1)
      return !(← maybeNot fs fuel next)
    else primary fs fuel role

def primary (fs : FileSystem) : (fuel : Nat) → Role → Check Bool
  | 0, _ => return false
  | fuel + 1, role => do
    match role with
    | .missing => return false
    | .opening =>
      let next ← move 1
      if next = .closing then return false
      else
        let found ← oneOf fs fuel next
        if (← move 1) ≠ .closing then fail [] "closing paren expected"
        return found
    | .unary op =>
      match ← move 1, ← get with
      | _, w :: _ => one fs op w
      | _, [] => fail (Bytes.ofString op) "argument expected"
    | _ =>
      match ← get with
      | a :: o :: rest =>
        match role? o with
        | some (.binary op) =>
          match rest with
          | b :: _ =>
            modify (·.drop 2)
            two fs op a b
          | [] => fail (Bytes.ofString op) "argument expected"
        | _ => return a ≠ []
      | a :: [] => return a ≠ []
      | [] => return false

end

/-- Whether a condition of at most `fuel` layers holds; `negated` turns the answer around. With few
words their number decides what they stand for. -/
def holds (fs : FileSystem) : (fuel : Nat) → (negated : Bool) → List Bytes → Except Bytes Bool
  | 0, _, _ => return false
  | _, negated, [] => return negated
  | fuel + 1, negated, ws => do
    let is (w : Option Bytes) (text : String) : Bool := w = some (Bytes.ofString text)
    let few := ws.length = 3 ∨ ws.length = 4
    let plain (role : Role) : Except Bytes Bool := do
      let whole : Check Bool := do
        let found ← oneOf fs (8 * ws.length + 8) role
        match ← get with
        | w :: _ :: _ => fail w "unexpected operator"
        | _ => return found
      return (← whole.run' ws) != negated
    if ws.length = 3 ∧ (ws[1]?).any isBinary then plain .operand
    else if few ∧ is ws.head? "(" ∧ is ws.getLast? ")" then holds fs fuel negated ws.tail.dropLast
    else if few ∧ is ws.head? "!" then holds fs fuel (!negated) ws.tail
    else plain (roleOf ws)

/-- Whether a condition holds; an error tells why it is none. -/
def check (fs : FileSystem) (ws : List Bytes) : Except Bytes Bool :=
  holds fs (ws.length + 1) false ws

end Groom.Shell.Condition
