import Groom.Expression.CharSet

/-!
Regular expressions, and whether a text has a part that matches one. A match is followed through all
places at once: an expression takes the places where it may begin to those where it may end.
-/
namespace Groom

/-- A condition on the characters before and after a place. Words are runs of letters and digits
below 128 and underscores. -/
inductive Expression.Look where
  | textStart
  | textEnd
  | lineStart
  | lineEnd
  /-- Lines may end with a carriage return, a line feed or both. -/
  | anyLineStart
  | anyLineEnd
  | boundary
  | notBoundary
  | wordStart
  | wordEnd
  | wordStartHalf
  | wordEndHalf
  /-- A condition on words of all scripts, which cannot be decided. -/
  | wide
  deriving DecidableEq, Repr

/-- A regular expression. -/
inductive Expression where
  | empty
  /-- One character of a set. -/
  | one (set : Expression.CharSet)
  /-- A condition on the place. -/
  | look (look : Expression.Look)
  | sequence (first second : Expression)
  | either (branches : List Expression)
  /-- So many times at least and, if there is a limit, at most. -/
  | repeated (low : Nat) (high : Option Nat) (body : Expression)
  /-- A part whose place in the text is remembered. -/
  | group (body : Expression)
  deriving Repr, Inhabited

namespace Expression

def isWord (c : Option Char) : Bool := c.any Named.word.set.holds

/-- Whether a condition holds between two characters; there may be none on either side. -/
def Look.holds (before after : Option Char) : Look → Bool
  | .textStart => before.isNone
  | .textEnd => after.isNone
  | .lineStart => before.isNone || before = some '\n'
  | .lineEnd => after.isNone || after = some '\n'
  | .anyLineStart =>
    before.isNone || before = some '\n' || (before = some '\r' && after ≠ some '\n')
  | .anyLineEnd => after.isNone || after = some '\r' || (after = some '\n' && before ≠ some '\r')
  | .boundary => isWord before != isWord after
  | .notBoundary => isWord before == isWord after
  | .wordStart => !isWord before && isWord after
  | .wordEnd => isWord before && !isWord after
  | .wordStartHalf => !isWord before
  | .wordEndHalf => !isWord after
  | .wide => false

/-- For each place of a text, whether it is meant. There is one place more than characters. -/
abbrev Marks := List Bool

/-- The characters before and after each place of a text. -/
def gaps : (before : Option Char) → List Char → List (Option Char × Option Char)
  | before, [] => [(before, none)]
  | before, c :: rest => (before, some c) :: gaps (some c) rest

def Marks.union (m n : Marks) : Marks := List.zipWith (· || ·) m n

/-- So many steps; no more are made once a step changes nothing. -/
def times (step : Marks → Marks) : Nat → Marks → Marks
  | 0, m => m
  | n + 1, m =>
    let next := step m
    if next = m then m else times step n next

def upTo (step : Marks → Marks) : Nat → Marks → Marks
  | 0, m => m
  | n + 1, m =>
    let next := m.union (step m)
    if next = m then m else upTo step n next

mutual

/-- The places where a match may end that begins at one of some places. -/
def ends (text : List Char) : Expression → Marks → Marks
  | .empty, m => m
  | .one set, m => false :: List.zipWith (fun c here => here && set.holds c) text m
  | .look l, m =>
    List.zipWith (fun gap here => here && l.holds gap.1 gap.2) (gaps none text) m
  | .sequence first second, m => ends text second (ends text first m)
  | .either branches, m => endsOfAny text branches m
  | .repeated low high body, m =>
    let step := ends text body
    -- without a limit every place is reached after as many steps as there are places
    let more := (high.map (· - low)).getD (text.length + 1)
    upTo step more (times step low m)
  | .group body, m => ends text body m

/-- The places where a match of any of some expressions may end. -/
def endsOfAny (text : List Char) : List Expression → Marks → Marks
  | [], m => m.map fun _ => false
  | e :: rest, m => (ends text e m).union (endsOfAny text rest m)

end

/-- Whether a text has a part that matches. -/
def occursIn (e : Expression) (text : List Char) : Bool :=
  (ends text e (List.replicate (text.length + 1) true)).any id

end Expression

end Groom
