import Groom.Expression.CharSet
import Groom.Expression.Fault

/-!
Regular expressions as they are written. Every part knows where it stands, so that faults found
later can tell their place.
-/
namespace Groom.Expression

/-- A switch for how the rest of a group is read. -/
inductive Flag where
  | ignoreCase
  | multiLine
  | dotAll
  | swapGreed
  | wide
  | carriageReturn
  | loose
  deriving DecidableEq, Repr

abbrev Flags := List (Flag × Bool)

/-- What a switch is turned to, if it is. -/
def Flags.state? (fs : Flags) (f : Flag) : Option Bool :=
  (fs.reverse.find? fun e => e.1 = f).map (·.2)

/-- A condition on the place of a match. -/
inductive Assertion where
  | lineStart
  | lineEnd
  | textStart
  | textEnd
  | word
  | notWord
  | wordStart
  | wordEnd
  | wordStartHalf
  | wordEndHalf
  deriving DecidableEq, Repr

/-- A character. `isByte` tells one that is written as two hexadecimal digits. -/
structure Literal where
  span : Span
  char : Char
  isByte : Bool := false
  deriving DecidableEq, Repr

/-- The operations on sets between brackets. -/
inductive Operation where
  | inter
  | diff
  | symmetric
  deriving DecidableEq, Repr

/-- What stands between brackets. -/
inductive Item where
  | nothing (span : Span)
  | literal (literal : Literal)
  | range (span : Span) (low high : Literal)
  | named (span : Span) (name : Named) (negated : Bool)
  /-- A set given by a letter after a backslash. -/
  | letter (span : Span) (name : Named) (negated : Bool)
  /-- A set given by a property of its characters. -/
  | property (span : Span) (name : String)
  | bracket (span : Span) (negated : Bool) (body : Item)
  | union (span : Span) (items : List Item)
  | combine (span : Span) (operation : Operation) (left right : Item)
  deriving Repr

def Item.span : Item → Span
  | .nothing s | .range s _ _ | .named s _ _ | .letter s _ _ | .property s _ | .bracket s _ _
  | .union s _ | .combine s _ _ _ => s
  | .literal l => l.span

/-- A part of a regular expression. -/
inductive Node where
  | empty (span : Span)
  /-- Switches for the rest of the group. -/
  | flags (span : Span) (flags : Flags)
  | literal (literal : Literal)
  | dot (span : Span)
  | look (span : Span) (assertion : Assertion)
  | letter (span : Span) (name : Named) (negated : Bool)
  | property (span : Span) (name : String)
  | bracket (span : Span) (negated : Bool) (body : Item)
  | repeated (span : Span) (low : Nat) (high : Option Nat) (body : Node)
  /-- Its switches hold inside only. -/
  | group (span : Span) (flags : Flags) (captures : Bool) (body : Node)
  | sequence (span : Span) (items : List Node)
  | either (span : Span) (items : List Node)
  deriving Repr

def Node.span : Node → Span
  | .empty s | .flags s _ | .dot s | .look s _ | .letter s _ _ | .property s _ | .bracket s _ _
  | .repeated s _ _ _ | .group s _ _ _ | .sequence s _ | .either s _ => s
  | .literal l => l.span

def Node.ofSequence (span : Span) : List Node → Node
  | [] => .empty span
  | [node] => node
  | many => .sequence span many

def Item.ofUnion (span : Span) : List Item → Item
  | [] => .nothing span
  | [node] => node
  | many => .union span many

/-- How deep groups, brackets and the like may nest. -/
def maxNesting : Nat := 250

mutual

/-- The first item that stands too deep, in the order of the text; `room` levels are left. -/
def Item.tooDeep? (room : Nat) : Item → Option Span
  | .bracket span _ body => if room = 0 then some span else body.tooDeep? (room - 1)
  | .union span items => if room = 0 then some span else tooDeepItems? (room - 1) items
  | .combine span _ left right =>
    if room = 0 then some span
    else (left.tooDeep? (room - 1)).or (right.tooDeep? (room - 1))
  | _ => none

/-- The first of some items that stands too deep. -/
def tooDeepItems? (room : Nat) : List Item → Option Span
  | [] => none
  | item :: rest => (item.tooDeep? room).or (tooDeepItems? room rest)

end

mutual

/-- The first part of a node that stands too deep. -/
def Node.tooDeep? (room : Nat) : Node → Option Span
  | .bracket span _ body => if room = 0 then some span else body.tooDeep? (room - 1)
  | .repeated span _ _ body => if room = 0 then some span else body.tooDeep? (room - 1)
  | .group span _ _ body => if room = 0 then some span else body.tooDeep? (room - 1)
  | .sequence span items => if room = 0 then some span else tooDeepNodes? (room - 1) items
  | .either span items => if room = 0 then some span else tooDeepNodes? (room - 1) items
  | _ => none

/-- The first of some nodes that has a part too deep. -/
def tooDeepNodes? (room : Nat) : List Node → Option Span
  | [] => none
  | node :: rest => (node.tooDeep? room).or (tooDeepNodes? room rest)

end

end Groom.Expression
