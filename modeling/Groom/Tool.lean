import Groom.Path

/-!
Definitions of external tools. A tool has a program, arguments that always come first, arguments
that ask whether it is there, and a template for the arguments of the real work.
-/
namespace Groom

/-- One place of an argument template. -/
inductive Arg where
  /-- These bytes, whatever the target is. -/
  | literal (bytes : Bytes)
  /-- The path that is worked on. -/
  | target
  deriving DecidableEq, Repr

def Arg.ofString (s : String) : Arg := .literal (Bytes.ofString s)

/-- What stands in a place of the template when `target` is worked on. -/
def Arg.fill (target : Path) : Arg → Bytes
  | .literal bytes => bytes
  | .target => target.bytes

/-- An external tool. -/
structure Tool where
  /-- The name used in messages. -/
  name : String
  program : Path
  /-- The arguments in front of both the probe's and the invocation's. -/
  base : List Bytes
  probeArgs : List Bytes
  invocation : List Arg
  deriving DecidableEq, Repr

namespace Tool

/-- A tool whose program has the tool's name and works on the target alone. -/
def named (name : String) : Tool := ⟨name, .ofString name, [], [], [.target]⟩

def withProgram (t : Tool) (program : Path) : Tool := { t with program }

def withBase (t : Tool) (base : List Bytes) : Tool := { t with base }

def withProbeArgs (t : Tool) (probeArgs : List Bytes) : Tool := { t with probeArgs }

def withInvocation (t : Tool) (invocation : List Arg) : Tool := { t with invocation }

/-- The arguments that ask whether the tool is there. -/
def probe (t : Tool) : List Bytes := t.base ++ t.probeArgs

/-- The arguments of the real work on a target. -/
def invocationFor (t : Tool) (target : Path) : List Bytes :=
  t.base ++ t.invocation.map (·.fill target)

/-- Whether the template has a place for the target. -/
def isPerFile (t : Tool) : Bool := t.invocation.any (· = .target)

/-- The program and its arguments, as records show them. -/
def commandLine (t : Tool) (args : List Bytes) : String :=
  " ".intercalate ((t.program.bytes :: args).map Utf8.lossy)

end Tool

/-- What a failing invocation means for the rest of a batch. -/
inductive FailurePolicy where
  /-- The first failure ends the batch. -/
  | abort
  /-- Failures are collected, and the batch goes on. -/
  | continue
  deriving DecidableEq, Repr

end Groom
