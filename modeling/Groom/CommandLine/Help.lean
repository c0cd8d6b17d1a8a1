import Groom.Config

/-!
The commands of the program, and the texts that explain them.
-/
namespace Groom.CommandLine

/-- A command, or a group of commands. -/
inductive Verb where
  | program
  | format
  | lint
  | lintCpp
  | lintMeson
  | tools
  deriving DecidableEq, Repr

namespace Verb

/-- The commands of a group, by their names. -/
def children : Verb → List (String × Verb)
  | .program => [("format", .format), ("lint", .lint), ("tools", .tools)]
  | .lint => [("cpp", .lintCpp), ("meson", .lintMeson)]
  | _ => []

def words : Verb → String
  | .program => "tidyup"
  | .format => "tidyup format"
  | .lint => "tidyup lint"
  | .lintCpp => "tidyup lint cpp"
  | .lintMeson => "tidyup lint meson"
  | .tools => "tidyup tools"

def about : Verb → String
  | .program => "Runs external formatters and linters over a project tree and reports what changed"
  | .format => "Format files in place, reporting each file that changed"
  | .lint => "Run static analysis"
  | .lintCpp => "Check C/C++ sources with clang-tidy"
  | .lintMeson => "Check Meson build files with muon"
  | .tools => "List known tools and whether they are installed"

def takes : Verb → String
  | .program | .lint => " <COMMAND>"
  | .format => " [TARGET]"
  | .lintCpp => " [ARGS]..."
  | _ => ""

end Verb

def helpAbout : String := "Print this message or the help of the given subcommand(s)"

/-- A text with blanks up to a width. -/
def pad (width : Nat) (s : String) : String :=
  String.ofList (s.toList ++ List.replicate (width - s.length) ' ')

/-- The list of the commands of a group; nothing for a command that is no group. -/
def commandList (v : Verb) : String :=
  match v.children with
  | [] => ""
  | cs =>
    let all := cs.map (fun c => (c.1, c.2.about)) ++ [("help", helpAbout)]
    let width := (all.map (·.1.length)).foldl max 0
    "\nCommands:\n" ++ String.join (all.map fun (name, about) => s!"  {pad width name}  {about}\n")

/-- The list of what a command takes besides options. -/
def argumentList : Verb → String
  | .format =>
    "\nArguments:\n  [TARGET]  Run a single formatter instead of all of them " ++
      "[possible values: cpp, meson, python]\n"
  | .lintCpp =>
    "\nArguments:\n  [ARGS]...  Extra arguments passed straight through to clang-tidy\n"
  | _ => ""

/-- The list of the options of a command. -/
def optionList (v : Verb) : String :=
  "\nOptions:\n      --root <ROOT>  Project root (defaults to the current directory)\n" ++
    "  -h, --help         Print help\n" ++
    (if v = .program then "  -V, --version      Print version\n" else "")

def help (v : Verb) : String :=
  s!"{v.about}\n\nUsage: {v.words} [OPTIONS]{v.takes}\n" ++
    commandList v ++ argumentList v ++ optionList v

/-- The explanation of the command that explains the commands of a group. -/
def helpOfHelp (v : Verb) : String :=
  s!"{helpAbout}\n\nUsage: {v.words} help [COMMAND]...\n" ++
    "\nArguments:\n  [COMMAND]...  Print help for the subcommand(s)\n"

/-- The name and the version of the program. -/
def version : String := "tidyup 0.1.0\n"

end Groom.CommandLine
