/-!
Log records: a level, the part of the program that speaks, and a message.
-/
namespace Groom.Log

/-- How much a record matters, the most important level first. -/
inductive Level where
  | error
  | warn
  | info
  | debug
  | trace
  deriving DecidableEq, Repr

namespace Level

/-- The name of a level as records show it. -/
def name : Level → String
  | .error => "ERROR"
  | .warn => "WARN"
  | .info => "INFO"
  | .debug => "DEBUG"
  | .trace => "TRACE"

/-- The place of a level in the order of importance; the smaller number matters more. -/
def rank : Level → Nat
  | .error => 1
  | .warn => 2
  | .info => 3
  | .debug => 4
  | .trace => 5

end Level

/-- The parts of the program that write records. -/
inductive Topic where
  | program
  | chain
  | processing
  | steps
  | lint
  | walk
  | config
  | registry
  | interrupt
  deriving DecidableEq, Repr

/-- The name under which a topic is shown and filtered. -/
def Topic.name : Topic → String
  | .program => "tidyup"
  | .chain => "tidyup::driver"
  | .processing => "tidyup::processor"
  | .steps => "tidyup::steps"
  | .lint => "tidyup::lint"
  | .walk => "tidyup::walk"
  | .config => "tidyup::config"
  | .registry => "tidyup::tools::registry"
  | .interrupt => "tidyup::interrupt"

/-- One record. -/
structure Record where
  level : Level
  topic : Topic
  message : String
  deriving DecidableEq, Repr

end Groom.Log
