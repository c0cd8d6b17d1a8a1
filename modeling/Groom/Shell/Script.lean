import Groom.Bytes

/-!
Scripts of the shell: words with expansions, simple commands with redirections, and the commands
built from them.
-/
namespace Groom.Shell

/-- What a dollar sign may name. -/
inductive Parameter where
  | named (name : String)
  /-- An argument of the script, or its name in place zero. -/
  | position (n : Nat)
  /-- The number of arguments. -/
  | count
  /-- All arguments as one text. -/
  | joined
  /-- All arguments, each by itself. -/
  | each
  /-- The status of the last command. -/
  | status
  /-- The process of the shell. -/
  | self
  /-- The process started last in the background. -/
  | background
  /-- The options that are set. -/
  | options
  deriving DecidableEq, Repr

/-- What a missing value leads to. -/
inductive Absence where
  /-- A word takes its place. -/
  | substitute
  /-- A word takes its place and becomes the value of the variable. -/
  | assign
  /-- The script stops with a message. -/
  | complain
  /-- Nothing; a word takes the place of a value that is there. -/
  | omit
  deriving DecidableEq, Repr

/-- How a redirection opens its file. -/
inductive Opening where
  | read
  /-- The old content is dropped. -/
  | truncate
  /-- The old content is dropped even where files are protected. -/
  | overwrite
  | append
  /-- For reading and writing; the old content stays. -/
  | update
  /-- No file: the stream of this number. -/
  | same
  /-- No file: a text that stands in the script, the one of this number. -/
  | document (number : Nat)
  deriving DecidableEq, Repr

mutual

/-- A piece of a word. -/
inductive Piece where
  | byte (byte : UInt8) (quoted : Bool)
  | quote
  /-- The directory of a user; no name stands for the user of the shell. -/
  | home (user : Bytes)
  | value (parameter : Parameter) (change : Change) (quoted : Bool)
  /-- What a command writes. -/
  | output (body : Option Command) (quoted : Bool)
  /-- The value of an arithmetic expression. -/
  | number (expression : List Piece) (quoted : Bool)

/-- What happens to a value before it is used. -/
inductive Change where
  | keep
  /-- The number of bytes takes the place of the value. -/
  | length
  /-- A missing value is treated; if `orEmpty`, an empty value counts as missing. -/
  | absent (treatment : Absence) (orEmpty : Bool) (word : List Piece)
  /-- The part that fits a pattern is taken away; see `Pattern.trim`. -/
  | trim (front longest : Bool) (pattern : List Piece)
  /-- No change that the shell knows. -/
  | unknown

/-- A redirection of a numbered stream. -/
inductive Redirection where
  | redirect (stream : Nat) (opening : Opening) (target : List Piece)

/-- A command. -/
inductive Command where
  /-- Assignments, words and redirections, from a numbered line. -/
  | simple (line : Nat) (assignments : List (String × List Piece)) (words : List (List Piece))
      (redirections : List Redirection)
  | redirected (line : Nat) (body : Command) (redirections : List Redirection)
  /-- A command that runs in a shell of its own. -/
  | subshell (line : Nat) (body : Command) (redirections : List Redirection)
  /-- A command that runs in a shell of its own while the script goes on. -/
  | background (body : Command)
  /-- Commands each of which reads what the one before it writes. -/
  | pipe (members : List Command)
  /-- One after the other. -/
  | sequence (first second : Command)
  /-- The second only after success of the first. -/
  | both (first second : Command)
  /-- The second only after failure of the first. -/
  | either (first second : Command)
  | negated (body : Command)
  | branch (condition yes : Command) (no : Option Command)
  /-- The body as long as the condition succeeds, or, if `untilSuccess`, fails. -/
  | repeated (untilSuccess : Bool) (condition body : Command)
  /-- The body for every word. -/
  | forEach (line : Nat) (name : String) (words : List (List Piece)) (body : Command)
  /-- The first alternative with a pattern for the word. -/
  | choose (line : Nat) (word : List Piece)
      (alternatives : List (List (List Piece) × Option Command))
  /-- A command gets a name. -/
  | define (line : Nat) (name : String) (body : Command)

end

abbrev Word := List Piece

instance : Inhabited Command := ⟨.pipe []⟩

end Groom.Shell
