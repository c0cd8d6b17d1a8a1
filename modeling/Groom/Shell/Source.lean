import Groom.Shell.Script
import Groom.Utf8

/-!
The text of a script while it is read: what is left of it, the number of the line, and the texts
announced for the lines below. The text is taken byte for byte, each byte as the character of its
number.
-/
namespace Groom.Shell

/-- The characters of a text, one for each byte. -/
def charsOf (bs : Bytes) : List Char := bs.map fun b => Char.ofNat b.toNat

/-- The byte of a character that stands for one. -/
def byteOf (c : Char) : UInt8 := c.toNat.toUInt8

def beginsName (c : Char) : Bool := c.isAlpha ∨ c = '_'

/-- Whether a character may stand in a name. -/
def inName (c : Char) : Bool := c.isAlphanum ∨ c = '_'

def isName (cs : List Char) : Bool := cs.head?.any beginsName && cs.all inName

/-- The words that mean something where a command may begin. -/
def keywords : List String :=
  ["!", "case", "do", "done", "elif", "else", "esac", "fi", "for", "if", "in", "then", "until",
    "while", "\x7b", "\x7d"]

/-- A token. -/
inductive Token where
  | word (word : Word)
  | keyword (text : String)
  /-- An operator, as it is written. -/
  | operator (text : String)
  /-- The sign of a redirection; its target is the next word. Of a text that stands in the script,
  it tells whether the tabs in front of its lines are dropped. -/
  | redirection (stream : Option Nat) (opening : Opening) (untabbed : Bool)
  | lineEnd
  | finish

namespace Token

def name : Token → String
  | .word _ => "word"
  | .keyword text | .operator text => "\"" ++ text ++ "\""
  | .redirection .. => "redirection"
  | .lineEnd => "newline"
  | .finish => "end of file"

/-- Whether a token ends a list of commands. -/
def isClosing : Token → Bool
  | .finish => true
  | .operator text => text ∈ [")", ";;"]
  | .keyword text => text ∈ ["do", "done", "elif", "else", "esac", "fi", "then", "\x7d"]
  | _ => false

end Token

/-- Why a script cannot be read. -/
structure Fault where
  line : Nat
  message : String

/-- A text that follows below the line that announces it. -/
structure Announced where
  number : Nat
  delimiter : Bytes
  /-- Whether nothing in it is expanded. -/
  literal : Bool
  untabbed : Bool

/-- What is left of a script. -/
structure Source where
  rest : List Char
  line : Nat := 1
  announced : List Announced := []
  /-- The texts read so far, by their numbers. -/
  documents : Array Word := #[]
  /-- Whether its lines are shown where that is wanted. -/
  isFile : Bool := false
  /-- A token that was read and put back. -/
  waiting : Option Token := none

abbrev Reading := StateT Source (Except Fault)

namespace Source

/-- Stops with a message about the current line. -/
def fail {α : Type} (message : String) : Reading α := do throw ⟨(← get).line, message⟩

/-- Skips line ends behind a backslash: how many, and what follows. -/
def skipJoints : List Char → Nat × List Char
  | '\\' :: '\n' :: rest =>
    let (n, rest) := skipJoints rest
    (n + 1, rest)
  | rest => (0, rest)

/-- The next character, which is not taken; line ends behind a backslash before it are. -/
def peek : Reading (Option Char) := do
  modify fun s =>
    let (n, rest) := skipJoints s.rest
    { s with rest, line := s.line + n }
  return (← get).rest.head?

/-- Takes the next character as it is written. -/
def nextRaw : Reading (Option Char) := do
  let s ← get
  match s.rest with
  | [] => return none
  | c :: rest =>
    set { s with rest, line := if c = '\n' then s.line + 1 else s.line }
    return some c

def next : Reading (Option Char) := do
  let _ ← peek
  nextRaw

/-- Takes the next character if it is a given one. -/
def accept (c : Char) : Reading Bool := do
  if (← peek) = some c then
    let _ ← next
    return true
  else return false

/-- Takes characters as long as they pass a test, at most so many. -/
def takeWhile (test : Char → Bool) : (most : Nat) → Reading (List Char)
  | 0 => return []
  | most + 1 => do
    match ← peek with
    | some c =>
      if test c then
        let _ ← next
        return c :: (← takeWhile test most)
      else return []
    | none => return []

def size : Reading Nat := return (← get).rest.length

def putBack (t : Token) : Reading Unit := modify fun s => { s with waiting := some t }

/-- Stops at a token that does not belong here. -/
def unexpected {α : Type} (t : Token) (wanted : Option String) : Reading α :=
  match wanted with
  | none => fail s!"{t.name} unexpected"
  | some text => fail (t.name ++ " unexpected (expecting " ++ text ++ ")")

/-- Splits off a text up to the line that holds its delimiter: the text, the number of its lines
with the delimiter's, and what follows. In a text that is not literal a line that ends in a
backslash goes on in the next line, which then is not looked at. -/
def cutDocument (a : Announced) : (fuel : Nat) → (fresh : Bool) → List Char →
    List Char × Nat × List Char
  | 0, _, cs => ([], 0, cs)
  | _, _, [] => ([], 0, [])
  | fuel + 1, fresh, cs =>
    let cs := if a.untabbed ∧ fresh then cs.dropWhile (· = '\t') else cs
    let line := cs.takeWhile (· ≠ '\n')
    let rest := (cs.dropWhile (· ≠ '\n')).drop 1
    if fresh ∧ line.map byteOf = a.delimiter then ([], 1, rest)
    else
      let joined := !a.literal && (line.reverse.takeWhile (· = '\\')).length % 2 = 1
      let (text, lines, after) := cutDocument a fuel (!joined) rest
      let ended := (cs.dropWhile (· ≠ '\n')).take 1
      (line ++ ended ++ text, lines + 1, after)

end Source

end Groom.Shell
