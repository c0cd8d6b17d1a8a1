import Groom.CommandLine.Help

/-!
Reading the arguments of the program. Options and names of commands may be mixed at every level;
after two dashes, and for `lint cpp` after its first own argument, everything is taken as it is.
-/
namespace Groom.CommandLine

/-- The formatters that can be run alone. -/
inductive FormatTarget where
  | cpp
  | meson
  | python
  deriving DecidableEq, Repr

/-- What the program is asked to do with a project. -/
inductive Order where
  /-- Format with one formatter, or with all of them. -/
  | format (target : Option FormatTarget)
  /-- Check the C and C++ files, with further arguments for the checker. -/
  | lintCpp (args : List String)
  | lintMeson
  | tools
  deriving DecidableEq, Repr

/-- What the arguments say. -/
inductive Reading where
  | order (root : Option Path) (order : Order)
  /-- A text is to be shown and nothing else to be done. -/
  | message (text : String)
  /-- The arguments make no sense. -/
  | wrong
  deriving DecidableEq, Repr

/-- The option for the root, where its value is not settled yet. -/
inductive Open where
  | nothing
  /-- The value is still to come. -/
  | awaited
  | value (bytes : Bytes)
  deriving DecidableEq, Repr

/-- What one level of the command line has said so far. -/
structure Level where
  root : Option Bytes := none
  pending : Open := .nothing
  values : List Bytes := []
  /-- Whether everything is taken as it is from now on. -/
  trailing : Bool := false

def FormatTarget.ofBytes? (bs : Bytes) : Option FormatTarget :=
  match Utf8.decode? bs with
  | some "cpp" => some .cpp
  | some "meson" => some .meson
  | some "python" => some .python
  | _ => none

namespace Level

/-- Sets the root, which is not empty and given once. -/
def setRoot? (l : Level) (value : Bytes) : Option Level :=
  if value = [] ∨ l.root.isSome then none
  else some { l with root := some value, pending := .nothing }

/-- Settles what is open; `none` if a value is missing or wrong. -/
def settle? (v : Verb) (l : Level) : Option Level :=
  if v = .format ∧ l.values.any fun value => (FormatTarget.ofBytes? value).isNone then none
  else match l.pending with
    | .nothing => some l
    | .awaited => none
    | .value value => l.setRoot? value

end Level

/-- An argument by its form. -/
inductive Form where
  /-- Two dashes and nothing else. -/
  | dashes
  /-- An option by its name, with the value attached to it, if any. -/
  | long (name : Bytes) (value : Option Bytes)
  /-- Options by their letters. -/
  | short (letters : Bytes)
  | plain
  deriving DecidableEq, Repr

def dash : UInt8 := Bytes.ofChar '-'

def Form.of (arg : Bytes) : Form :=
  match arg with
  | a :: b :: rest =>
    if a = dash ∧ b = dash then
      if rest = [] then .dashes
      else
        let name := rest.takeWhile (· ≠ Bytes.ofChar '=')
        match rest.dropWhile (· ≠ Bytes.ofChar '=') with
        | [] => .long name none
        | _ :: value => .long name (some value)
    else if a = dash then .short (b :: rest)
    else .plain
  | _ => .plain

/-- The text that an option without a value asks for. -/
def flag? (v : Verb) (name : Bytes) : Option String :=
  if name = Bytes.ofString "help" then some (help v)
  else if v = .program ∧ name = Bytes.ofString "version" then some version
  else none

/-- The text that the letter of an option asks for. -/
def letter? (v : Verb) (b : UInt8) : Option String :=
  if b = Bytes.ofChar 'h' then some (help v)
  else if v = .program ∧ b = Bytes.ofChar 'V' then some version
  else none

/-- Whether the arguments of a command may look like options. -/
def Verb.takesDashes (v : Verb) : Bool := v = .lintCpp

/-- How many arguments of its own a command takes; `none` for any number. -/
def Verb.capacity : Verb → Option Nat
  | .format => some 1
  | .lintCpp => none
  | _ => some 0

/-- The text that explains the command named by words, starting from a group. -/
def helpFor (v : Verb) : List Bytes → Reading
  | [] => .message (help v)
  | word :: rest =>
    match v.children.find? fun c => Bytes.ofString c.1 = word with
    | some (_, child) => helpFor child rest
    | none =>
      if v.children ≠ [] ∧ word = Bytes.ofString "help" ∧ rest = [] then .message (helpOfHelp v)
      else .wrong

/-- What a level says when there are no more arguments. -/
def close (v : Verb) (l : Level) : Reading :=
  match l.settle? v with
  | none => .wrong
  | some l =>
    let root := l.root.map Path.mk
    match v with
    | .program | .lint => .wrong
    | .format => .order root (.format (l.values.head?.bind FormatTarget.ofBytes?))
    | .lintMeson => .order root .lintMeson
    | .tools => .order root .tools
    | .lintCpp =>
      match l.values.mapM Utf8.decode? with
      | some args => .order root (.lintCpp args)
      | none => .wrong

/-- What one argument does to a level. -/
inductive Move where
  | next (l : Level)
  | stop (r : Reading)

/-- A level that takes an argument as one of its command's own. -/
def own (v : Verb) (l : Level) (arg : Bytes) : Move :=
  match v.capacity with
  | some n =>
    if l.values.length < n then
      match l.settle? v with
      | some l => .next { l with values := l.values ++ [arg] }
      | none => .stop .wrong
    else .stop .wrong
  | none =>
    match l.settle? v with
    | some l => .next { l with values := l.values ++ [arg], trailing := true }
    | none => .stop .wrong

/-- A level that takes an argument as the value of the open option or as one of its command's own.
-/
def value (v : Verb) (l : Level) (arg : Bytes) : Move :=
  if l.pending = .awaited then .next { l with pending := .value arg } else own v l arg

/-- Shows a text after settling what is open. -/
def showing (v : Verb) (l : Level) (text : String) : Move :=
  match l.settle? v with
  | some _ => .stop (.message text)
  | none => .stop .wrong

/-- A level that reads an argument which is no name of a command. -/
def read (v : Verb) (l : Level) (arg : Bytes) : Move :=
  if l.trailing then own v l arg
  else
    match Form.of arg with
    | .dashes => .next { l with trailing := true }
    | .plain => value v l arg
    | .long name attached =>
      if name = Bytes.ofString "root" then
        match l.settle? v, attached with
        | none, _ => .stop .wrong
        | some l, none => .next { l with pending := .awaited }
        | some l, some given =>
          match l.setRoot? given with
          | some l => .next l
          | none => .stop .wrong
      else
        match flag? v name, attached with
        | some text, none => showing v l text
        -- these options take no value
        | some _, some _ => .stop .wrong
        | none, _ => if v.takesDashes then value v l arg else .stop .wrong
    | .short letters =>
      -- one unknown letter makes the whole argument a plain one, where those may have dashes
      if v.takesDashes ∧ letters.any fun b => (letter? v b).isNone then value v l arg
      else
        match letters.head?.bind (letter? v) with
        | some text => showing v l text
        | none => .stop .wrong

/-- The root that counts: that of the inner level before that of the outer. -/
def withRoot (v : Verb) (l : Level) : Reading → Reading
  | .order root order =>
    match l.settle? v with
    | some l => .order (root.or (l.root.map Path.mk)) order
    | none => .wrong
  | r => r

def parse (v : Verb) (l : Level) : List Bytes → Reading
  | [] => close v l
  | arg :: rest =>
    -- after two dashes, and as the value of an option, a name of a command is a plain word
    let child? :=
      if l.trailing ∨ l.pending = .awaited then none
      else v.children.find? fun c => Bytes.ofString c.1 = arg
    match child? with
    | some (_, child) => withRoot v l (parse child {} rest)
    | none =>
      if !l.trailing ∧ l.pending ≠ .awaited ∧ v.children ≠ [] ∧ arg = Bytes.ofString "help" then
        helpFor v rest
      else
        match read v l arg with
        | .next l => parse v l rest
        | .stop r => r

def Reading.ofArguments (args : List Bytes) : Reading := parse .program {} args

end Groom.CommandLine
