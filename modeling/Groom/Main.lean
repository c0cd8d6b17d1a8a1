import Groom.CommandLine.Program

/-!
The program at a terminal. The files that a run can reach are read into a tree, the run is computed
on that tree, and the files that it changed are written back.
-/
namespace Groom.Terminal

def isProgram (content : Bytes) : Bool :=
  (Bytes.ofString "#!").isPrefixOf content || (Bytes.ofString "\x7fELF").isPrefixOf content

/-- Reads an entry of a directory, with all that is below it. -/
partial def readEntry (e : IO.FS.DirEntry) : IO Node := do
  match (← e.path.symlinkMetadata).type with
  | .dir =>
    let found ← (← e.path.readDir).toList.filterMapM fun below => do
      match Name.ofBytes? (Bytes.ofString below.fileName) with
      | some name => return some (name, ← readEntry below)
      | none => return none
    return .directory found
  | .symlink => return .link (Bytes.ofString (← IO.FS.realPath e.path).toString)
  | .file =>
    let content := (← IO.FS.readBinFile e.path).toList
    return .file content (isProgram content)
  | .other => return .device

/-- Reads what stands at an absolute path into its place; a path that cannot be read is left out. -/
def readInto (fs : FileSystem) (path : String) : IO FileSystem := do
  try
    let node ← readEntry ⟨"/", path⟩
    let names := (Path.ofString path).segments.filterMap Name.ofBytes?
    let parent := FileSystem.pathOf names.dropLast
    return match fs.makeDirectories parent with
      | .ok fs => fs.withTree (fs.tree.put names node)
      | .error _ => fs
  catch _ => return fs

def filesOf (fs : FileSystem) : List (Location × Bytes) := fs.tree.root.files []

/-- Writes the files that differ between two trees, and removes those that are gone. -/
def writeChanges (before after : FileSystem) : IO Unit := do
  let old := filesOf before
  let new := filesOf after
  for (loc, content) in new do
    if old.lookup loc ≠ some content then
      IO.FS.writeBinFile (FileSystem.pathOf loc).display ⟨content.toArray⟩
  for (loc, _) in old do
    if (new.lookup loc).isNone then IO.FS.removeFile (FileSystem.pathOf loc).display

/-- What the program finds when it starts at a terminal. -/
def start (args : List String) : IO CommandLine.Start := do
  let setting (name : String) : IO (Option Bytes) := return (← IO.getEnv name).map Bytes.ofString
  let here := (← IO.currentDir).toString
  let cwd := (Path.ofString here).segments.filterMap Name.ofBytes?
  let args := args.map Bytes.ofString
  let searchPath := (← setting "PATH").getD []
  let root := match CommandLine.Reading.ofArguments args with
    | .order (some root) _ => [FileSystem.anchored (.ofString here) root]
    | _ => []
  let tools := (Machine.Image.directories searchPath).flatMap fun dir =>
    ToolId.all.map fun id => dir.join id.builtin.program
  let files ← (Path.ofString here :: root ++ tools).foldlM
    (fun fs p => readInto fs p.display) ⟨default, .enter default cwd⟩
  return { files := (Machine.install files).toOption.getD files
           env := .ofList (← ["PATH", "HOME", "TIDYUP_LOG", "RUST_LOG"].filterMapM fun name =>
             return (← setting name).map (name, ·))
           args }

end Groom.Terminal

def main (args : List String) : IO UInt32 := do
  let start ← Groom.Terminal.start args
  let finish := Groom.CommandLine.run start
  (← IO.getStdout).write ⟨finish.output.toArray⟩
  (← IO.getStderr).write ⟨finish.complaints.toArray⟩
  Groom.Terminal.writeChanges start.files finish.files
  return (finish.exitCode.getD 1).toUInt32
