import Groom.Shell.Pattern

/-!
Fields: the texts that the words of a command expand to. What was expanded outside of quotation
marks is cut into fields at separators.
-/
namespace Groom.Shell

/-- A place of an expanded word. -/
inductive Mark where
  | byte (byte : UInt8) (quoted : Bool)
  /-- A quotation mark. It is no part of the text, but makes a field even of nothing. -/
  | quote
  /-- The gap between two arguments. -/
  | gap
  deriving DecidableEq, Repr

/-- Where a stretch of an expanded word is cut. -/
inductive Region where
  | nowhere
  /-- At gaps and separators. -/
  | separators
  | gaps
  deriving DecidableEq, Repr

/-- A stretch of an expanded word. -/
structure Stretch where
  region : Region
  marks : List Mark
  deriving DecidableEq, Repr

namespace Mark

def text (ms : List Mark) : Bytes :=
  ms.filterMap fun
    | .byte b _ => some b
    | _ => none

/-- Some marks as the text of a pattern. -/
def pattern (ms : List Mark) : List Pattern.Mark :=
  ms.filterMap fun
    | .byte b quoted => some ⟨b, quoted⟩
    | _ => none

def ofBytes (quoted : Bool) (bs : Bytes) : List Mark := bs.map (.byte · quoted)

end Mark

def Stretch.text (stretches : List Stretch) : Bytes := stretches.flatMap fun s => Mark.text s.marks

namespace Field

/-- Whether a byte is a blank or a line end; as separators these count only between texts. -/
def isSpace (b : UInt8) : Bool := b = 32 ∨ b = 9 ∨ b = 10

/-- Fields in the making. -/
structure Cut where
  separators : Bytes
  /-- How many fields may still be begun, if their number is limited; the last one takes the rest.
  -/
  limit : Option Nat
  finished : List (List Mark) := []
  /-- The marks of the field begun, the last one first. -/
  current : List Mark := []
  /-- Whether the last field was ended by a blank, after which one other separator is swallowed. -/
  spaced : Bool := false
  /-- How much of the current field stays if nothing more follows. -/
  kept : Option Nat := none
  /-- Whether this stretch, and the one before it, is cut at gaps only. -/
  gapsOnly : Bool := false
  afterGaps : Bool := false

namespace Cut

/-- Whether a mark separates fields, and whether it does so as a blank. -/
def separates (c : Cut) : Mark → Bool × Bool
  | .gap => (true, true)
  | .quote => (false, false)
  | .byte b _ =>
    let found := !c.gapsOnly && c.separators.contains b
    (found, found && isSpace b)

def keep (c : Cut) (m : Mark) : Cut := { c with current := m :: c.current }

def finish (c : Cut) : Cut :=
  { c with finished := c.finished ++ [c.current.reverse], current := [] }

/-- Takes one mark of a stretch that is cut. -/
def take (c : Cut) (m : Mark) : Cut :=
  let (separator, blank) := c.separates m
  if c.limit = some 0 then
    -- the last field takes everything but blanks, or a single separator, at its end
    if blank then { c with kept := c.kept.or (some c.current.length) }.keep m
    else
      { c with kept := if separator && c.spaced then c.kept else none, spaced := false }.keep m
  else if c.spaced then
    if blank then { c with current := [] }
    else if separator then { c with current := [], spaced := false }
    else { c with current := [m], spaced := false }
  else if separator then
    let c := if c.gapsOnly || c.afterGaps then c else { c with spaced := blank }
    if c.current = [] ∧ c.spaced then { c with spaced := false }
    else match c.limit with
      | some 1 => { c with limit := some 0, kept := some c.current.length }.keep m
      | limit => { c.finish with limit := limit.map (· - 1) }
  else c.keep m

def stretch (c : Cut) (s : Stretch) : Cut :=
  match s.region with
  | .nowhere => { c with current := s.marks.reverse ++ c.current }
  | region =>
    s.marks.foldl take
      { c with spaced := false, afterGaps := c.gapsOnly, gapsOnly := region = .gaps }

def fields (c : Cut) : List (List Mark) :=
  let last := match c.kept with
    | some n => c.current.reverse.take n
    | none => c.current.reverse
  if c.gapsOnly ∨ last ≠ [] then c.finished ++ [last] else c.finished

end Cut

/-- Cuts stretches into fields, at most so many. -/
def cut (separators : Bytes) (limit : Option Nat) (stretches : List Stretch) : List (List Mark) :=
  (stretches.foldl Cut.stretch { separators, limit }).fields

end Field

end Groom.Shell
