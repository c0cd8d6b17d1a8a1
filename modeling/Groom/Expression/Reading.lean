import Groom.Expression.Cursor

/-!
Reading a regular expression: sets between brackets, groups, repetitions and alternatives.
-/
namespace Groom.Expression

namespace Reader

/-- What stands at a place of a set: a character, or an escape. -/
def place : Reader Node := do
  match ← peek? with
  | some '\\' => escape
  | some c =>
    let span ← character
    advance
    return .literal ⟨span, c, false⟩
  | none => return .empty (← point)

def asItem : Node → Reader Item
  | .literal l => return .literal l
  | .letter span name negated => return .letter span name negated
  | .property span name => return .property span name
  | node => fail .classEscape node.span

/-- What an escape means at an end of a range. -/
def asLiteral : Node → Reader Literal
  | .literal l => return l
  | node => fail .classBoundary node.span

/-- Reads a character or a range of a set that was opened at `opening`. -/
def rangeItem (opening : Span) : Reader Item := do
  let first ← place
  blanks
  if ← atEnd then fail .classUnclosed opening
  if (← peek?) ≠ some '-' then return ← asItem first
  let beyond ← second?
  if beyond = some ']' ∨ beyond = some '-' then return ← asItem first
  step
  if ← atEnd then fail .classUnclosed opening
  let last ← place
  let span : Span := ⟨first.span.start, last.span.stop⟩
  let low ← asLiteral first
  let high ← asLiteral last
  if high.char < low.char then fail .classOrder span
  return .range span low high

/-- Reads the name of a set between colons, if there is one. -/
def namedItem? : Reader (Option Item) := do
  let before ← get
  let start ← here
  if ← take "[:" then
    let negated ← take "^"
    let name ← takeWhile (· ≠ ':') advance (← bound)
    if ← take ":]" then
      if let some named := Named.ofName? (String.ofList name) then
        return some (.named (← since start) named negated)
  set before
  return none

def spanOf (point : Span) : List Item → Span
  | [] => point
  | last :: rest => ⟨((rest.getLast?).getD last).span.start, last.span.stop⟩

/-- The items of a set so far, the last one first, and the operation that they are the right side
of. -/
structure Pending where
  /-- Where the items begin. -/
  point : Span
  items : List Item := []
  operation : Option (Operation × Item) := none

def Pending.item (p : Pending) : Item :=
  let right := Item.ofUnion (spanOf p.point p.items) p.items.reverse
  match p.operation with
  | none => right
  | some (operation, left) => .combine ⟨left.span.start, right.span.stop⟩ operation left right

/-- Reads literal signs for ranges at the start of a set. -/
def dashes (start : Place) : (fuel : Nat) → Reader (List Item)
  | 0 => return []
  | fuel + 1 => do
    if (← peek?) ≠ some '-' then return []
    let span ← character
    step
    if ← atEnd then fail .classUnclosed ⟨start, start⟩
    return (← dashes start fuel) ++ [.literal ⟨span, '-', false⟩]

/-- Reads the opening bracket of a set, and what stands for itself right behind it: whether the set
is negated, and the items so far. -/
def opened : Reader (Bool × Pending) := do
  let start ← here
  step
  if ← atEnd then fail .classUnclosed (← since start)
  let negated := (← peek?) = some '^'
  if negated then
    step
    if ← atEnd then fail .classUnclosed (← since start)
  let point ← point
  let items ← dashes start (← bound)
  if items.isEmpty ∧ (← peek?) = some ']' then
    let span ← character
    step
    if ← atEnd then fail .classUnclosed (← since start)
    return (negated, ⟨point, [.literal ⟨span, ']', false⟩], none⟩)
  return (negated, ⟨point, items, none⟩)

/-- The sign of an operation on sets that comes next. -/
def operation? : Reader (Option Operation) := do
  if ← take "&&" then return some .inter
  if ← take "--" then return some .diff
  if ← take "~~" then return some .symmetric
  return none

/-- Reads the rest of a set, up to and with its closing bracket. -/
def restOfSet (start : Place) (opening : Span) (negated : Bool) :
    (fuel : Nat) → Pending → Reader Item
  | 0, p => return p.item
  | fuel + 1, p => do
    blanks
    match ← peek? with
    | none => fail .classUnclosed opening
    | some ']' =>
      advance
      return .bracket (← since start) negated p.item
    | some '[' =>
      match ← namedItem? with
      | some item => restOfSet start opening negated fuel { p with items := item :: p.items }
      | none =>
        let inner ← here
        let (innerNegated, innerPending) ← opened
        let item ← restOfSet inner (← since inner) innerNegated fuel innerPending
        restOfSet start opening negated fuel { p with items := item :: p.items }
    | some _ =>
      match ← operation? with
      | some operation =>
        restOfSet start opening negated fuel ⟨← point, [], some (operation, p.item)⟩
      | none =>
        let item ← rangeItem opening
        restOfSet start opening negated fuel { p with items := item :: p.items }

def bracket : Reader Node := do
  let start ← here
  let (negated, pending) ← opened
  match ← restOfSet start (← since start) negated (← bound) pending with
  | .bracket span negated body => return .bracket span negated body
  | item => return .bracket item.span false item

def flag? : Char → Option Flag
  | 'i' => some .ignoreCase
  | 'm' => some .multiLine
  | 's' => some .dotAll
  | 'U' => some .swapGreed
  | 'u' => some .wide
  | 'R' => some .carriageReturn
  | 'x' => some .loose
  | _ => none

/-- Reads switches up to a colon or a closing parenthesis. `seen` holds those so far with their
places, `minus` the place of the sign that turns the later ones off, and `dangling` tells that
nothing has come after it. -/
def flags (seen : List (Flag × Span)) (minus : Option Span) (dangling : Bool) :
    (fuel : Nat) → Reader Flags
  | 0 => return []
  | fuel + 1 => do
    match ← peek? with
    | none => fail .flagUnfinished (← point)
    | some c =>
      let span ← character
      if c = ':' ∨ c = ')' then
        if dangling then fail .flagDangling (minus.getD span)
        return []
      else if c = '-' then
        if minus.isSome then fail .flagNegatedTwice span minus
        advance
        if ← atEnd then fail .flagUnfinished (← point)
        flags seen (some span) true fuel
      else
        match flag? c with
        | none => fail .flagUnknown span
        | some f =>
          if let some (_, earlier) := seen.find? fun e => e.1 = f then
            fail .flagTwice span (some earlier)
          advance
          if ← atEnd then fail .flagUnfinished (← point)
          return (f, minus.isNone) :: (← flags ((f, span) :: seen) minus false fuel)

/-- Whether a character may stand in the name of a group. -/
def isNamePart (first : Bool) (c : Char) : Bool :=
  if first then c = '_' || isLetter c
  else c = '_' || c = '.' || c = '[' || c = ']' || isLetterOrNumeral c

/-- Reads the characters of a name of a group. -/
def nameParts (first : Bool) : (fuel : Nat) → Reader (List Char)
  | 0 => return []
  | fuel + 1 => do
    match ← peek? with
    | none => fail .nameUnfinished (← point)
    | some '>' => return []
    | some c =>
      if !isNamePart first c then fail .nameInvalid (← character)
      advance
      return c :: (← nameParts false fuel)

/-- Reads the name of a group and the sign behind it. No two groups have one name. -/
def groupName : Reader Unit := do
  let start ← here
  let name := String.ofList (← nameParts true (← bound))
  let span ← since start
  advance
  if name = "" then fail .nameEmpty ⟨start, start⟩
  if let some (_, earlier) := (← get).names.find? fun e => e.1 = name then
    fail .nameTwice span (some earlier)
  modify fun c => { c with names := (name, span) :: c.names }

/-- How a group begins. -/
inductive Opening where
  /-- Switches alone, without a group. -/
  | flags (flags : Flags)
  | group (flags : Flags) (captures : Bool)

/-- Passes over the first of some texts that comes next. -/
def takeAny : List String → Reader Bool
  | [] => return false
  | text :: rest => do
    if ← take text then return true
    takeAny rest

def opening : Reader Opening := do
  let span ← character
  step
  let ahead ← point
  if ← takeAny ["?=", "?!", "?<=", "?<!"] then fail .lookAround (← since span.start)
  if ← takeAny ["?P<", "?<"] then
    groupName
    return .group [] true
  if ← take "?" then
    if ← atEnd then fail .groupUnclosed span
    let fs ← flags [] none false (← bound)
    let alone := (← peek?) = some ')'
    advance
    if !alone then return .group fs false
    -- without switches the sign is one of repetition
    if fs = [] then fail .nothingRepeated ahead
    return .flags fs
  return .group [] true

/-- Reads the number of times between braces, from the opening brace on: the least and the most. -/
def counts : Reader (Nat × Option Nat) := do
  let start ← here
  step
  if ← atEnd then fail .countUnclosed (← since start)
  let low ← decimal
  if ← atEnd then fail .countUnclosed (← since start)
  let (low, high) ← (do
    if (← peek?) = some ',' then
      step
      if ← atEnd then fail .countUnclosed (← since start)
      if (← peek?) = some '}' then return (← low, none)
      let low ← low
      let high ← (← decimal)
      return (low, some high)
    else
      let n ← low
      return (n, some n) : Reader (Nat × Option Nat))
  if (← peek?) ≠ some '}' then fail .countUnclosed (← since start)
  step
  return (low, high)

/-- Reads what repeats the part in front of it. -/
def repetition : Reader (Nat × Option Nat) := do
  match ← peek? with
  | some '?' =>
    advance
    return (0, some 1)
  | some '*' =>
    advance
    return (0, none)
  | some '+' =>
    advance
    return (1, none)
  | _ => counts

/-- Repeats the last of some nodes as what comes next says. -/
def repeatLast (items : List Node) : Reader (List Node) := do
  let span ← point
  match items with
  | [] | .empty _ :: _ | .flags .. :: _ => fail .nothingRepeated span
  | node :: rest =>
    let (low, high) ← repetition
    -- how eagerly to repeat makes no difference to whether there is a match
    let _ ← take "?"
    if high.any fun n => n < low then fail .countOrder (← since span.start)
    return .repeated (← since node.span.start) low high node :: rest

def single : Reader Node := do
  let span ← character
  match ← peek? with
  | some '\\' => escape
  | some '[' => bracket
  | some '.' =>
    advance
    return .dot span
  | some '^' =>
    advance
    return .look span .lineStart
  | some '$' =>
    advance
    return .look span .lineEnd
  | some c =>
    advance
    return .literal ⟨span, c, false⟩
  | none => return .empty span

/-- Alternatives as one node; `start` is where they begin. -/
def asOne (start : Place) (branches : List Node) (last : Node) : Reader Node := do
  if branches.isEmpty then return last
  return .either (← since start) (branches ++ [last])

/-- Reads the alternatives up to the end of a group or of the text. The alternatives before the
present one and its parts so far are given, and where both begin; the last part comes first. -/
def alternatives : (fuel : Nat) → (start : Place) → (branches : List Node) → (first : Place) →
    (items : List Node) → Reader Node
  | 0, start, branches, first, items => do
    asOne start branches (.ofSequence (← since first) items.reverse)
  | fuel + 1, start, branches, first, items => do
    blanks
    match ← peek? with
    | none | some ')' => asOne start branches (.ofSequence (← since first) items.reverse)
    | some '|' =>
      let branch := Node.ofSequence (← since first) items.reverse
      advance
      alternatives fuel start (branches ++ [branch]) (← here) []
    | some '(' =>
      let span ← character
      let outer := (← get).loose
      match ← opening with
      | .flags fs =>
        modify fun c => { c with loose := (fs.state? .loose).getD c.loose }
        let item := Node.flags (← since span.start) fs
        alternatives fuel start branches first (item :: items)
      | .group fs captures =>
        modify fun c => { c with loose := (fs.state? .loose).getD c.loose }
        let inner ← here
        let body ← alternatives fuel inner [] inner []
        if ← atEnd then fail .groupUnclosed span
        advance
        modify fun c => { c with loose := outer }
        let item := Node.group (← since span.start) fs captures body
        alternatives fuel start branches first (item :: items)
    | some c =>
      if c = '?' ∨ c = '*' ∨ c = '+' ∨ c = '{' then
        alternatives fuel start branches first (← repeatLast items)
      else alternatives fuel start branches first ((← single) :: items)

def whole : Reader Node := do
  let start ← here
  let node ← alternatives (← bound) start [] start []
  if ← atEnd then
    match node.tooDeep? maxNesting with
    | some span => fail (.tooDeep maxNesting) span
    | none => return node
  else fail .groupUnopened (← character)

end Reader

def Node.ofText (text : String) : Except Fault Node :=
  (Reader.whole.run { rest := text.toList }).map (·.1)

end Groom.Expression
