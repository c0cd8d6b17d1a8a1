import Groom.Log
import Groom.StringMap
import Groom.Tool

/-!
The tools that the built-in steps use. A configured path replaces a tool's program and nothing else.
-/
namespace Groom

/-- The built-in tools. -/
inductive ToolId where
  | clangFormat
  | clangTidy
  | muonFmt
  | muonAnalyze
  | isort
  | yapf
  deriving DecidableEq, Repr

namespace ToolId

/-- All built-in tools, in the order in which they are listed. -/
def all : List ToolId := [.clangFormat, .clangTidy, .muonFmt, .muonAnalyze, .isort, .yapf]

/-- The key under which a tool is listed. -/
def key : ToolId → String
  | .clangFormat => "clang-format"
  | .clangTidy => "clang-tidy"
  | .muonFmt => "muon-fmt"
  | .muonAnalyze => "muon-analyze"
  | .isort => "isort"
  | .yapf => "yapf"

def description : ToolId → String
  | .clangFormat => "C/C++ Formatter"
  | .clangTidy => "C/C++ Linter"
  | .muonFmt => "Meson Formatter"
  | .muonAnalyze => "Meson Analyzer"
  | .isort => "Python Import Sorter"
  | .yapf => "Python Formatter"

/-- The definition of a tool: its program, its leading arguments and its probe. The template of the
real work depends on the project and is added by the step. -/
def builtin : ToolId → Tool
  | .clangFormat => (Tool.named "clang-format").withProbeArgs [.ofString "--version"]
  | .clangTidy => (Tool.named "clang-tidy").withProbeArgs [.ofString "--version"]
  | .muonFmt =>
    ((Tool.named "muon").withBase [.ofString "fmt"]).withProbeArgs [.ofString "-h"]
  | .muonAnalyze =>
    ((Tool.named "muon").withBase [.ofString "analyze"]).withProbeArgs [.ofString "-h"]
  | .isort => (Tool.named "isort").withProbeArgs [.ofString "--version"]
  | .yapf => (Tool.named "yapf").withProbeArgs [.ofString "--version"]

end ToolId

/-- The configured programs, by the name of the tool. -/
abbrev ToolPaths := StringMap String

/-- A definition for every built-in tool. -/
structure Registry where
  tool : ToolId → Tool

namespace Registry

def ofPaths (paths : ToolPaths) : Registry where
  tool id :=
    match paths.get? id.builtin.name with
    | some path => id.builtin.withProgram (.ofString path)
    | none => id.builtin

/-- What is logged when a registry is made: a record for every tool with a configured program. -/
def notices (paths : ToolPaths) : List Log.Record :=
  ToolId.all.filterMap fun id =>
    (paths.get? id.builtin.name).map fun path =>
      ⟨.debug, .registry, s!"Tool '{id.builtin.name}' configured at: {path}"⟩

end Registry

end Groom
