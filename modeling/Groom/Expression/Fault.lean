/-!
What may be wrong with the text of a regular expression, and where. A fault is shown below the text,
with the places it is about marked.
-/
namespace Groom.Expression

/-- A place in a text: its line and its column, both counted from one. -/
structure Place where
  line : Nat := 1
  column : Nat := 1
  deriving DecidableEq, Repr

def Place.after (p : Place) (c : Char) : Place :=
  if c = '\n' then ⟨p.line + 1, 1⟩ else ⟨p.line, p.column + 1⟩

/-- A stretch of a text, up to but without the place `stop`. -/
structure Span where
  start : Place
  stop : Place
  deriving DecidableEq, Repr

/-- What is wrong. -/
inductive Cause where
  | classEscape
  | classOrder
  | classBoundary
  | classUnclosed
  | decimalInvalid
  | hexEmpty
  | hexInvalid
  | hexDigit
  | escapeUnfinished
  | escapeUnknown
  | flagDangling
  | flagTwice
  | flagNegatedTwice
  | flagUnfinished
  | flagUnknown
  | nameTwice
  | nameEmpty
  | nameInvalid
  | nameUnfinished
  | groupUnclosed
  | groupUnopened
  | tooDeep (limit : Nat)
  | countOrder
  | countEmpty
  | countUnclosed
  | nothingRepeated
  | boundaryUnclosed
  | boundaryUnknown
  | boundaryUnfinished
  | propertyInvalid
  | backReference
  | lookAround
  | wideNotAllowed
  | invalidText
  | propertyUnknown
  | propertyValueUnknown
  | letterUnavailable
  | caseUnavailable
  deriving DecidableEq, Repr

def Cause.message : Cause → String
  | .classEscape => "invalid escape sequence found in character class"
  | .classOrder => "invalid character class range, the start must be <= the end"
  | .classBoundary => "invalid range boundary, must be a literal"
  | .classUnclosed => "unclosed character class"
  | .decimalInvalid => "decimal literal invalid"
  | .hexEmpty => "hexadecimal literal empty"
  | .hexInvalid => "hexadecimal literal is not a Unicode scalar value"
  | .hexDigit => "invalid hexadecimal digit"
  | .escapeUnfinished => "incomplete escape sequence, reached end of pattern prematurely"
  | .escapeUnknown => "unrecognized escape sequence"
  | .flagDangling => "dangling flag negation operator"
  | .flagTwice => "duplicate flag"
  | .flagNegatedTwice => "flag negation operator repeated"
  | .flagUnfinished => "expected flag but got end of regex"
  | .flagUnknown => "unrecognized flag"
  | .nameTwice => "duplicate capture group name"
  | .nameEmpty => "empty capture group name"
  | .nameInvalid => "invalid capture group character"
  | .nameUnfinished => "unclosed capture group name"
  | .groupUnclosed => "unclosed group"
  | .groupUnopened => "unopened group"
  | .tooDeep limit =>
    "exceed the maximum number of nested parentheses/brackets (" ++ toString limit ++ ")"
  | .countOrder => "invalid repetition count range, the start must be <= the end"
  | .countEmpty => "repetition quantifier expects a valid decimal"
  | .countUnclosed => "unclosed counted repetition"
  | .nothingRepeated => "repetition operator missing expression"
  | .boundaryUnclosed =>
    "special word boundary assertion is either unclosed or contains an invalid character"
  | .boundaryUnknown =>
    "unrecognized special word boundary assertion, valid choices are: start, end, start-half " ++
      "or end-half"
  | .boundaryUnfinished =>
    "found either the beginning of a special word boundary or a bounded repetition on a \\b " ++
      "with an opening brace, but no closing brace"
  | .propertyInvalid => "invalid Unicode character class"
  | .backReference => "backreferences are not supported"
  | .lookAround => "look-around, including look-ahead and look-behind, is not supported"
  | .wideNotAllowed => "Unicode not allowed here"
  | .invalidText => "pattern can match invalid UTF-8"
  | .propertyUnknown => "Unicode property not found"
  | .propertyValueUnknown => "Unicode property value not found"
  | .letterUnavailable =>
    "Unicode-aware Perl class not found (make sure the unicode-perl feature is enabled)"
  | .caseUnavailable =>
    "Unicode-aware case insensitivity matching is not available " ++
      "(make sure the unicode-case feature is enabled)"

/-- A fault: what is wrong, where, and which earlier part it has to do with. -/
structure Fault where
  cause : Cause
  span : Span
  earlier : Option Span := none
  deriving DecidableEq, Repr

namespace Fault

/-- The lines of a text, without their ends. An empty last line is left out. -/
def linesOf (line : List Char) : List Char → List (List Char)
  | [] => if line = [] then [] else [line.reverse]
  | '\n' :: rest => line.reverse :: linesOf [] rest
  | '\r' :: '\n' :: rest => line.reverse :: linesOf [] rest
  | c :: rest => linesOf (c :: line) rest

def fill (n : Nat) (c : Char) : String := String.ofList (List.replicate n c)

/-- The marks below a line, from a column on. -/
def marks (column : Nat) : List Span → String
  | [] => ""
  | s :: rest =>
    let gap := s.start.column - column
    let width := max 1 (s.stop.column - s.start.column)
    fill gap ' ' ++ fill width '^' ++ marks (column + gap + width) rest

/-- The stretches of a fault in their order. -/
def spans (f : Fault) : List Span := f.earlier.toList ++ [f.span]

def isFlat (s : Span) : Bool := s.start.line = s.stop.line

/-- The lines of a text with marks below those that a fault is about. Lines are numbered if there
are several. -/
def marked (f : Fault) (digits : Nat) : (number : Nat) → List (List Char) → String
  | _, [] => ""
  | number, line :: rest =>
    let label :=
      if digits = 0 then fill 4 ' '
      else
        let shown := toString number
        fill (digits - shown.length) ' ' ++ shown ++ ": "
    let here := f.spans.filter fun s => isFlat s && s.start.line = number
    let below := if here = [] then "" else fill label.length ' ' ++ marks 1 here ++ "\n"
    label ++ String.ofList line ++ "\n" ++ below ++ marked f digits (number + 1) rest

def described (s : Span) : String :=
  s!"on line {s.start.line} (column {s.start.column}) through line {s.stop.line} " ++
    s!"(column {s.stop.column - 1})\n"

/-- The text of a fault of a pattern. -/
def text (f : Fault) (pattern : String) : String :=
  let cs := pattern.toList
  let lines := linesOf [] cs
  let count := lines.length + if cs.getLast? = some '\n' then 1 else 0
  let body := f.marked (if count ≤ 1 then 0 else (toString count).length) 1 lines
  let body :=
    if '\n' ∈ cs then
      let rule := fill 79 '~' ++ "\n"
      let long := f.spans.filter fun s => !isFlat s
      rule ++ body ++ rule ++ String.join (long.map described)
    else body
  "regex parse error:\n" ++ body ++ "error: " ++ f.cause.message

end Fault

end Groom.Expression
