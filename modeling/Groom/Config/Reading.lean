import Groom.Config
import Groom.Printable
import Groom.Toml.Document
import Groom.Toml.Sound

/-!
Reading configuration files. A table is a configuration if it has no other keys than those of one,
and if every key has a value of the right kind. The keys of a table are looked at in their order as
texts, and the first one that does not fit is the one reported.
-/
namespace Groom

open Toml

namespace ConfigFile

/-- What a value is, as messages tell it. -/
def found : Value → String
  | .string text => s!"string {quote text}"
  | .integer n => s!"integer `{n.getD 0}`"
  | .float value => s!"floating point `{value.text}`"
  | .boolean value => s!"boolean `{value}`"
  | .moment _ => "map"
  | .array .. => "sequence"
  | .table .. => "map"

/-- A value of another kind than the expected one. -/
def mismatch (value : Value) (expected : String) : String :=
  s!"invalid type: {found value}, expected {expected}"

/-- The entries of a table in the order of their keys. -/
def ordered (es : Fields) : Fields :=
  (StringMap.ofList es).entries

/-- Reads a value that has to be a text. -/
def text (expected : String) : Value → Except String String
  | .string text => .ok text
  | value => .error (mismatch value expected)

/-- Reads what stands for a tool in the form of a table. -/
def toolFields (es : Fields) : Except String ToolOverride :=
  (ordered es).foldlM
    (fun _ entry =>
      if entry.1 = "path" then (text "a string" entry.2).map fun path => ⟨some path⟩
      else .error s!"unknown field `{entry.1}`, expected `path`")
    {}

/-- Reads what stands for a tool: a table, or an array whose first item is the path. -/
def tool : Value → Except String ToolOverride
  | .table _ es => toolFields es
  | .moment text => toolFields [(momentKey, .string text)]
  | .array _ (first :: _) => (text "a string" first).map fun path => ⟨some path⟩
  | .array _ [] => .error "invalid length 0, expected struct ToolOverride with 1 element"
  | value => .error (mismatch value "struct ToolOverride")

def toolTable (es : Fields) : Except String (StringMap ToolOverride) :=
  (ordered es).foldlM
    (fun tools entry => (tool entry.2).map fun override => tools.insert entry.1 override) {}

def toolsOf : Value → Except String (StringMap ToolOverride)
  | .table _ es => toolTable es
  | .moment text => toolTable [(momentKey, .string text)]
  | value => .error (mismatch value "a map")

def field (f : ConfigFile) (key : String) (value : Value) : Except String ConfigFile :=
  if key = "source-dir" then
    (text "path string" value).map fun path => { f with sourceDir := some (.ofString path) }
  else if key = "muon-config" then
    (text "path string" value).map fun path => { f with muonConfig := some (.ofString path) }
  else if key = "tools" then (toolsOf value).map fun tools => { f with tools }
  else .error s!"unknown field `{key}`, expected one of `source-dir`, `muon-config`, `tools`"

def ofTable (es : Fields) : Except String ConfigFile :=
  (ordered es).foldlM (fun f entry => f.field entry.1 entry.2) {}

/-- Reads the text of a configuration. A text that does not fit counts as malformed if its values
are not sound. -/
def ofText (text : String) : Except ConfigFault ConfigFile :=
  match parse? text with
  | none => .error .malformed
  | some es =>
    match ofTable es with
    | .ok f => .ok f
    | .error detail => .error (if areSoundFields es then .unfit detail else .malformed)

end ConfigFile

namespace ProjectConfig

/-- The layout of the project at `root`, with its configuration file if it has one. -/
def load (fs : FileSystem) (root : Path) : Except ConfigurationError ProjectConfig :=
  let file := filePath root
  if fs.isFile file then
    match fs.readText file with
    | .error cause => .error (.unreadable file cause)
    | .ok text =>
      match ConfigFile.ofText text with
      | .error fault => .error (.invalid file fault)
      | .ok f => .ok ((default root).apply f)
  else .ok (default root)

/-- The record of a layout that was loaded. -/
def notice (fs : FileSystem) (root : Path) : Log.Record :=
  let file := filePath root
  if fs.isFile file then ⟨.debug, .config, s!"Loaded {file.display}"⟩
  else ⟨.debug, .config, s!"No {fileName} in {root.display}"⟩

end ProjectConfig

end Groom
