import Groom.Blank
import Groom.Expression.Refusal
import Groom.Log

/-!
Choosing log records. A filter is a list of directives, each a level for the topics whose names
begin in a certain way; the directive with the longest such beginning decides.
-/
namespace Groom.Log

/-- How much of a topic is let through; `none` stands for nothing. -/
abbrev Limit := Option Level

/-- A limit for the topics whose names begin with a text; without a text, for all topics. -/
structure Directive where
  name : Option String
  limit : Limit
  deriving DecidableEq, Repr

/-- A filter. -/
structure Filter where
  /-- The directives; later ones go before earlier ones. -/
  directives : List Directive
  /-- What the message has to contain. -/
  message : Option Expression

namespace Filter

/-- The limit of a name of a level; upper and lower case are the same. -/
def limit? (s : String) : Option Limit :=
  match String.ofList (s.toList.map Char.toLower) with
  | "off" => some none
  | "error" => some (some .error)
  | "warn" => some (some .warn)
  | "info" => some (some .info)
  | "debug" => some (some .debug)
  | "trace" => some (some .trace)
  | _ => none

/-- A text without the blanks at its ends. -/
def trimmed (cs : List Char) : List Char :=
  ((cs.dropWhile isBlank).reverse.dropWhile isBlank).reverse

/-- The stretches of a text between separators, at least one. -/
def splitOn (sep : Char) : List Char → List (List Char)
  | [] => [[]]
  | c :: rest =>
    if c = sep then [] :: splitOn sep rest
    else match splitOn sep rest with
      | [] => [[c]]
      | piece :: pieces => (c :: piece) :: pieces

/-- Reads one directive; fails with the part that cannot be read. -/
def directive (cs : List Char) : Except String Directive :=
  match splitOn '=' cs with
  | [one] =>
    let text := String.ofList one
    match limit? text with
    | some limit => .ok ⟨none, limit⟩
    -- a word that is no level names a topic, of which everything is let through
    | none => .ok ⟨some text, some .trace⟩
  | [name, level] =>
    let level := trimmed level
    if level = [] then .ok ⟨some (String.ofList name), some .trace⟩
    else match limit? (String.ofList level) with
      | some limit => .ok ⟨some (String.ofList name), limit⟩
      | none => .error (String.ofList level)
  | _ => .error (String.ofList cs)

/-- Enters a directive; it takes the place of one for the same topics. -/
def enter (d : Directive) : List Directive → List Directive
  | [] => [d]
  | e :: rest => if e.name = d.name then d :: rest else e :: enter d rest

/-- The number of bytes of a directive's name. -/
def width (d : Directive) : Nat := (d.name.map (·.utf8ByteSize)).getD 0

/-- Puts a directive behind those with names that are no longer. -/
def place (d : Directive) : List Directive → List Directive
  | [] => [d]
  | e :: rest => if width d < width e then d :: e :: rest else e :: place d rest

/-- Directives in the order of the lengths of their names. -/
def ordered (ds : List Directive) : List Directive := ds.foldl (fun acc d => place d acc) []

/-- Reads the directives of a filter, with the complaints about those that cannot be read. -/
def readDirectives (cs : List Char) : List Directive × List String :=
  ((splitOn ',' cs).map trimmed).foldl
    (fun (ds, complaints) part =>
      if part = [] then (ds, complaints)
      else match directive part with
        | .ok d => (enter d ds, complaints)
        | .error text =>
          (ds, complaints ++ [s!"warning: invalid logging spec '{text}', ignoring it"]))
    ([], [])

/-- The filter that lets errors through and nothing else. -/
def errorsOnly : List Directive := [⟨none, some .error⟩]

def ofText (text : String) : Filter × List String :=
  let finish (ds : List Directive) : List Directive := if ds = [] then errorsOnly else ordered ds
  match splitOn '/' text.toList with
  | [specs] =>
    let (ds, complaints) := readDirectives specs
    (⟨finish ds, none⟩, complaints)
  | [specs, message] =>
    let (ds, complaints) := readDirectives specs
    let pattern := String.ofList message
    match Expression.ofText pattern with
    | .ok e => (⟨finish ds, some e⟩, complaints)
    | .error refusal =>
      (⟨finish ds, none⟩,
        complaints ++ [s!"warning: invalid regex filter - {refusal.message pattern}"])
  | _ =>
    (⟨errorsOnly, none⟩,
      [s!"warning: invalid logging spec '{text}', ignoring it (too many '/'s)"])

def lets (limit : Limit) (level : Level) : Bool :=
  match limit with
  | some l => level.rank ≤ l.rank
  | none => false

def covers (d : Directive) (topic : Topic) : Bool :=
  match d.name with
  | none => true
  | some name => name.toList.isPrefixOf topic.name.toList

def admits (f : Filter) (r : Record) : Bool :=
  -- the last directive that covers the topic has the longest name
  (match f.directives.reverse.find? (covers · r.topic) with
    | some d => lets d.limit r.level
    | none => false) &&
  (match f.message with
    | some e => e.occursIn r.message.toList
    | none => true)

end Filter

/-- The text of records, line by line. The names of the topics are padded to the widest so far,
which is `width` at the start. -/
def lines (width : Nat) : List Record → List String
  | [] => []
  | r :: rest =>
    let width := max width r.topic.name.length
    let pad (n : Nat) (s : String) : String :=
      String.ofList (s.toList ++ List.replicate (n - s.length) ' ')
    s!" {pad 5 r.level.name} {pad width r.topic.name} > {r.message}\n" :: lines width rest

end Groom.Log
