import Groom.Config
import Groom.Step

/-!
The built-in steps, made from the layout of a project.
-/
namespace Groom.Builtin

/-- Formats the C and C++ files of the source directory. -/
def formatCpp (c : ProjectConfig) (r : Registry) : FormatStep :=
  let tool := (r.tool .clangFormat).withInvocation [.ofString "-i", .target]
  { name := "format-cpp"
    root := c.sourceDir
    selection := .bySuffix [".c", ".cpp", ".h", ".hpp"]
    probes := [tool]
    passes := [tool] }

def formatMeson (c : ProjectConfig) (r : Registry) : FormatStep :=
  let tool := (r.tool .muonFmt).withInvocation
    [.ofString "-i", .ofString "-c", .literal c.muonConfig.bytes, .target]
  { name := "format-meson"
    root := c.root
    selection := .names ["meson.build", "meson_options.txt"]
    probes := [tool]
    passes := [tool] }

/-- Sorts the imports of the Python files of the project, then formats them. -/
def formatPython (c : ProjectConfig) (r : Registry) : FormatStep :=
  let isort := (r.tool .isort).withInvocation [.ofString "-q", .target]
  let yapf := (r.tool .yapf).withInvocation [.ofString "-i", .target]
  { name := "format-python"
    root := c.root
    selection := .bySuffix [".py"]
    probes := [yapf, isort]
    passes := [isort, yapf] }

/-- Has the build files of the project analysed as a whole. -/
def lintMeson (c : ProjectConfig) (r : Registry) : AnalyzeStep where
  name := "lint-meson"
  root := c.root
  tool := (r.tool .muonAnalyze).withInvocation
    [.ofString "-Werror", .ofString "-O", .literal c.root.bytes]

/-- Checks the C and C++ files of the source directory, going on after files that fail. -/
def lintCpp (c : ProjectConfig) (r : Registry) (extraArgs : List String) : LintStep where
  name := "lint-cpp"
  searchRoot := c.root
  sourceDir := c.sourceDir
  selection := .bySuffix [".c", ".cpp"]
  tool := r.tool .clangTidy
  extraArgs := extraArgs
  policy := .continue

/-- The formatting steps, in the order in which they are run. -/
def formatters (c : ProjectConfig) (r : Registry) : List Step :=
  [.format (formatCpp c r), .format (formatMeson c r), .format (formatPython c r)]

end Groom.Builtin
