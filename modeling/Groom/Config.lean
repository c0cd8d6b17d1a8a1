import Groom.Error
import Groom.FileSystem
import Groom.Registry

/-!
The layout of a project: where its sources are, which configuration the build-file formatter gets,
and which programs stand for the tools. A configuration file changes parts of the default layout.
-/
namespace Groom

/-- What a configuration file says about one tool. -/
structure ToolOverride where
  path : Option String := none
  deriving DecidableEq, Repr

/-- What a configuration file says. Everything may be left out. -/
structure ConfigFile where
  sourceDir : Option Path := none
  muonConfig : Option Path := none
  tools : StringMap ToolOverride := {}
  deriving DecidableEq, Repr

/-- The layout of a project. -/
structure ProjectConfig where
  root : Path
  /-- Where the C and C++ files are. -/
  sourceDir : Path
  /-- The configuration of the build-file formatter. -/
  muonConfig : Path
  tools : ToolPaths
  deriving DecidableEq, Repr

namespace ProjectConfig

/-- The name of the configuration file in the root of a project. -/
def fileName : String := "tidyup.toml"

/-- The layout of a project without a configuration file. -/
def default (root : Path) : ProjectConfig where
  root := root
  sourceDir := root.join (.ofString "src")
  muonConfig := root.join (.ofString ".muon.ini")
  tools := {}

/-- Enters the programs that a file names; a tool without a path keeps what it has. -/
def overridePaths (tools : StringMap ToolOverride) (paths : ToolPaths) : ToolPaths :=
  tools.entries.foldl
    (fun paths entry =>
      match entry.2.path with
      | some path => paths.insert entry.1 path
      | none => paths)
    paths

/-- The layout after a configuration file; relative paths in the file start at the root. -/
def apply (c : ProjectConfig) (f : ConfigFile) : ProjectConfig where
  root := c.root
  sourceDir := (f.sourceDir.map c.root.join).getD c.sourceDir
  muonConfig := (f.muonConfig.map c.root.join).getD c.muonConfig
  tools := overridePaths f.tools c.tools

/-- The layout with a program for a tool. -/
def withTool (c : ProjectConfig) (tool path : String) : ProjectConfig :=
  { c with tools := c.tools.insert tool path }

/-- Whether two layouts are the same; paths are compared component by component. -/
def same (c d : ProjectConfig) : Bool :=
  c.root.same d.root && c.sourceDir.same d.sourceDir && c.muonConfig.same d.muonConfig &&
    c.tools = d.tools

/-- The place of the configuration file of a project. -/
def filePath (root : Path) : Path := root.join (.ofString fileName)

end ProjectConfig

end Groom
