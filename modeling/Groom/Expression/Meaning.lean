import Groom.Expression.Basic
import Groom.Expression.Node

/-!
What a written regular expression means. Sets given by properties, by letters for all scripts, and
the cases of letters of all scripts are not at hand and count as faults; without the switch for all
scripts a part may match characters below 128 only.
-/
namespace Groom.Expression

/-- The switches in force. -/
structure Mode where
  ignoreCase : Bool := false
  multiLine : Bool := false
  dotAll : Bool := false
  wide : Bool := true
  carriageReturn : Bool := false
  deriving DecidableEq, Repr

def Mode.after (mode : Mode) (fs : Flags) : Mode where
  ignoreCase := (fs.state? .ignoreCase).getD mode.ignoreCase
  multiLine := (fs.state? .multiLine).getD mode.multiLine
  dotAll := (fs.state? .dotAll).getD mode.dotAll
  wide := (fs.state? .wide).getD mode.wide
  carriageReturn := (fs.state? .carriageReturn).getD mode.carriageReturn

/-- A set of characters. `folded` tells that it is known to have both cases of each of its letters.
-/
structure Class where
  set : CharSet
  folded : Bool

namespace Class

def empty : Class := ⟨[], true⟩

def ofSet (s : CharSet) : Class := ⟨s, false⟩

def union (c d : Class) : Class :=
  if d.set = [] then c else ⟨c.set.union d.set, c.folded && d.folded⟩

/-- The result of an operation on two sets. -/
def combine (operation : Operation) (c d : Class) : Class :=
  let set :=
    match operation with
    | .inter => c.set.inter d.set
    | .diff => c.set.diff d.set
    | .symmetric => c.set.symmetric d.set
  ⟨set, set = [] || (c.folded && d.folded)⟩

def complement (c : Class) : Class :=
  ⟨c.set.complement, c.set = [] || c.folded⟩

/-- The set with both cases of its letters, where that is wanted. -/
def fold (mode : Mode) (span : Span) (c : Class) : Except Fault Class :=
  if !mode.ignoreCase ∨ c.folded then .ok c
  else if mode.wide then .error ⟨.caseUnavailable, span, none⟩
  else .ok ⟨c.set.bothCases, true⟩

/-- A set as the brackets around it want it. -/
def finish (mode : Mode) (span : Span) (negated : Bool) (c : Class) : Except Fault Class := do
  let c ← c.fold mode span
  let c := if negated then c.complement else c
  if mode.wide ∨ c.set.isNarrow then return c else throw ⟨.invalidText, span, none⟩

end Class

/-- The set of a letter after a backslash. -/
def letterClass (mode : Mode) (span : Span) (name : Named) (negated : Bool) : Except Fault Class :=
  if mode.wide then .error ⟨.letterUnavailable, span, none⟩
  else if negated then .error ⟨.invalidText, span, none⟩
  else .ok (.ofSet name.set)

/-- The name of a property as it is looked up. -/
def propertyKey (name : String) : String :=
  let cs := name.toList.map Char.toLower
  let (is, cs) := if ['i', 's'].isPrefixOf cs then (true, cs.drop 2) else (false, cs)
  let key := String.ofList (cs.filter fun c => c.toNat < 128 && c ∉ [' ', '_', '-'])
  if is ∧ key = "c" then "isc" else key

/-- Why there is no set for a property. -/
def propertyFault (mode : Mode) (span : Span) (name : String) : Fault :=
  if !mode.wide then ⟨.wideNotAllowed, span, none⟩
  -- these could only be values of a property
  else if propertyKey name ∈ ["cf", "sc", "lc"] then ⟨.propertyValueUnknown, span, none⟩
  else ⟨.propertyUnknown, span, none⟩

/-- The character of an end of a range. -/
def bound (mode : Mode) (l : Literal) : Except Fault Nat :=
  if mode.wide ∨ l.char.toNat < 128 then .ok l.char.toNat
  else .error ⟨if l.isByte then .invalidText else .wideNotAllowed, l.span, none⟩

mutual

def Item.meaning (mode : Mode) : Item → Except Fault Class
  | .nothing _ => .ok .empty
  | .literal l => do
    let n ← bound mode l
    return .ofSet [(n, n)]
  | .range _ low high => do
    let m ← bound mode low
    let n ← bound mode high
    return .ofSet [(m, n)]
  | .named span name negated => (Class.ofSet name.set).finish mode span negated
  | .letter span name negated => letterClass mode span name negated
  | .property span name => .error (propertyFault mode span name)
  | .bracket span negated body => do (← body.meaning mode).finish mode span negated
  | .union _ items => meaningOfItems mode .empty items
  | .combine _ operation left right => do
    let l ← left.meaning mode
    let r ← right.meaning mode
    let r ← r.fold mode right.span
    let l ← l.fold mode left.span
    return .combine operation l r

/-- The set of some items, after a set of the ones before them. -/
def meaningOfItems (mode : Mode) (before : Class) : List Item → Except Fault Class
  | [] => .ok before
  | item :: rest => do meaningOfItems mode (before.union (← item.meaning mode)) rest

end

/-- The meaning of a character outside of brackets. -/
def Literal.meaning (mode : Mode) (l : Literal) : Except Fault Expression :=
  let c := l.char
  if !mode.wide ∧ l.isByte ∧ 128 ≤ c.toNat then .error ⟨.invalidText, l.span, none⟩
  else if !mode.ignoreCase then .ok (.one (.single c))
  else if mode.wide then .error ⟨.caseUnavailable, l.span, none⟩
  else .ok (.one (CharSet.bothCases (.single c)))

def dotMeaning (mode : Mode) (span : Span) : Except Fault Expression :=
  if !mode.wide then .error ⟨.invalidText, span, none⟩
  else if mode.dotAll then .ok (.one .full)
  else if mode.carriageReturn then .ok (.one (CharSet.complement [(10, 10), (13, 13)]))
  else .ok (.one (CharSet.complement [(10, 10)]))

def Assertion.meaning (mode : Mode) : Assertion → Look
  | .textStart => .textStart
  | .textEnd => .textEnd
  | .lineStart =>
    if !mode.multiLine then .textStart
    else if mode.carriageReturn then .anyLineStart else .lineStart
  | .lineEnd =>
    if !mode.multiLine then .textEnd
    else if mode.carriageReturn then .anyLineEnd else .lineEnd
  | .word => if mode.wide then .wide else .boundary
  | .notWord => if mode.wide then .wide else .notBoundary
  | .wordStart => if mode.wide then .wide else .wordStart
  | .wordEnd => if mode.wide then .wide else .wordEnd
  | .wordStartHalf => if mode.wide then .wide else .wordStartHalf
  | .wordEndHalf => if mode.wide then .wide else .wordEndHalf

def andThen : Expression → Expression → Expression
  | .empty, e => e
  | e, .empty => e
  | e, f => .sequence e f

/-- The sets of some expressions, if they are all sets. -/
def sets? : List Expression → Option CharSet
  | [] => some []
  | .one s :: rest => (sets? rest).map (CharSet.union s)
  | _ => none

def flat : List Expression → List Expression
  | [] => []
  | .either es :: rest => es ++ flat rest
  | e :: rest => e :: flat rest

/-- Any of some expressions. Alternatives that are all sets are one set. -/
def anyOf (es : List Expression) : Expression :=
  match sets? (flat es) with
  | some s => .one s
  | none => .either (flat es)

mutual

/-- Whether an expression matches the empty text only. -/
def isEmptyOnly : Expression → Bool
  | .empty | .look _ => true
  | .one _ => false
  | .sequence e f => isEmptyOnly e && isEmptyOnly f
  | .either es => areEmptyOnly es
  | .repeated _ high e => isEmptyOnly e || high = some 0
  | .group e => isEmptyOnly e

/-- Whether some expressions match the empty text only. -/
def areEmptyOnly : List Expression → Bool
  | [] => true
  | e :: rest => isEmptyOnly e && areEmptyOnly rest

end

/-- An expression so many times. What matches the empty text only need not be repeated. -/
def repetition (low : Nat) (high : Option Nat) (e : Expression) : Expression :=
  let once := isEmptyOnly e
  let low := if once then min low 1 else low
  let high := if once then some (min (high.getD 1) 1) else high
  if low = 0 ∧ high = some 0 then .empty
  else if low = 1 ∧ high = some 1 then e
  else .repeated low high e

mutual

/-- The meaning of a node, and the switches in force behind it. -/
def Node.meaning (mode : Mode) : Node → Except Fault (Expression × Mode)
  | .empty _ => .ok (.empty, mode)
  | .flags _ fs => .ok (.empty, mode.after fs)
  | .literal l => do return (← l.meaning mode, mode)
  | .dot span => do return (← dotMeaning mode span, mode)
  | .look _ assertion => .ok (.look (assertion.meaning mode), mode)
  | .letter span name negated => do
    return (.one (← letterClass mode span name negated).set, mode)
  | .property span name => .error (propertyFault mode span name)
  | .bracket span negated body => do
    return (.one (← (← body.meaning mode).finish mode span negated).set, mode)
  | .repeated _ low high body => do
    let (e, mode) ← body.meaning mode
    return (repetition low high e, mode)
  | .group _ fs captures body => do
    let (e, _) ← body.meaning (mode.after fs)
    return (if captures then .group e else e, mode)
  | .sequence _ items => meaningInTurn mode items
  | .either _ items => do
    let (es, mode) ← meaningOfEach mode items
    return (anyOf es, mode)

/-- The meaning of nodes one after the other. -/
def meaningInTurn (mode : Mode) : List Node → Except Fault (Expression × Mode)
  | [] => .ok (.empty, mode)
  | node :: rest => do
    let (e, mode) ← node.meaning mode
    let (f, mode) ← meaningInTurn mode rest
    return (andThen e f, mode)

/-- The meaning of each of some nodes. Switches hold on in the nodes behind. -/
def meaningOfEach (mode : Mode) : List Node → Except Fault (List Expression × Mode)
  | [] => .ok ([], mode)
  | node :: rest => do
    let (e, mode) ← node.meaning mode
    let (es, mode) ← meaningOfEach mode rest
    return (e :: es, mode)

end

end Groom.Expression
