import Groom.Command

/-!
Why a step, or the whole program, stops.
-/
namespace Groom

/-- What is wrong with a configuration file that can be read. -/
inductive ConfigFault where
  /-- The text does not follow the format's grammar. -/
  | malformed
  /-- The text is well formed, but its values are not those of a configuration. -/
  | unfit (detail : String)
  deriving DecidableEq, Repr

/-- Stands in for the text that the reader of the format shows for a fault. The line and the column
of the fault and the snippet of the file are left out, and for a text that does not follow the
grammar the reason too. -/
def ConfigFault.message : ConfigFault → String
  | .malformed => "TOML parse error"
  | .unfit detail => s!"TOML parse error\n{detail}\n"

/-- A file that a step or the program needs is missing, ambiguous or wrong. -/
inductive ConfigurationError where
  | notFound (name : String)
  /-- There are several candidates, listed in the order of the walk. -/
  | multiple (name : String) (candidates : List Path)
  | unreadable (path : Path) (cause : IoError)
  | invalid (path : Path) (fault : ConfigFault)
  deriving DecidableEq, Repr

namespace ConfigurationError

/-- What went wrong, without the cause below it. -/
def summary : ConfigurationError → String
  | .notFound name => s!"Could not find {name}"
  | .multiple name _ => s!"Found multiple {name}"
  | .unreadable path _ => s!"Failed to read {path.display}"
  | .invalid path _ => s!"Failed to parse {path.display}"

def message (e : ConfigurationError) : String :=
  match e with
  | .notFound _ | .multiple .. => e.summary
  | .unreadable _ cause => s!"{e.summary}: {cause.message}"
  | .invalid _ fault => s!"{e.summary}: {fault.message}"

end ConfigurationError

/-- Why a run stopped. -/
inductive Error where
  /-- A tool is not there, or its probe fails. -/
  | toolMissing (tool : String)
  | configuration (cause : ConfigurationError)
  /-- A tool failed at its real work. -/
  | toolInvocation (tool : String) (status : Status)
  | interrupted
  /-- These files failed their checks. -/
  | checksFailed (failed : List Path)
  /-- The report could not be written. -/
  | output (cause : IoError)
  /-- A file could not be read, or a program could not be started. -/
  | io (path : Path) (cause : IoError)
  deriving DecidableEq, Repr

namespace Error

def message : Error → String
  | .toolMissing tool => s!"{tool} is required"
  | .configuration cause => cause.message
  | .toolInvocation tool status => s!"{tool} failed ({status.text})"
  | .interrupted => "Interrupted"
  | .checksFailed failed => s!"{failed.length} file(s) failed checks"
  | .output cause => s!"Failed to write output: {cause.message}"
  | .io path cause => s!"{path.display}: {cause.message}"

/-- Whether the error is part of the report for the user; all other errors go to the log. -/
def isReported : Error → Bool
  | .toolMissing _ | .configuration _ => true
  | _ => false

/-- The exit code of the program after an error. -/
def exitCode (_ : Error) : Nat := 1

end Error

end Groom
