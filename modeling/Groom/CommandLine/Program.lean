import Groom.Builtin
import Groom.Chain
import Groom.CommandLine.Arguments
import Groom.Config.Reading
import Groom.Log.Filter
import Groom.Search

/-!
The program: it reads its arguments, loads the layout of the project, runs the steps it is asked
for, and reports what went wrong.
-/
namespace Groom.CommandLine

variable {σ : Type}

/-- The layout of the project at a root. -/
def loadConfig (s : Setting σ) (root : Path) : Run σ ProjectConfig := do
  let fs ← Run.files s
  match ProjectConfig.load fs root with
  | .ok c =>
    Run.note (.logged (ProjectConfig.notice fs root))
    return c
  | .error e => throw (.configuration e)

def noteAll (records : List Log.Record) : Run σ Unit := records.forM fun r => Run.note (.logged r)

def toolLine (l : Search.Listing) : List String :=
  let location := match l.location with
    | some p => p.display
    | none => s!"not found ({l.tool.program.display})"
  let table := s!"[tools.{l.tool.name}]"
  [s!"{pad 14 l.id.key} {pad 22 l.id.description} {pad 20 table} {location}"]

def listTools (s : Setting σ) (env : Machine.Environment) (r : Registry) : Run σ Unit := do
  let listings := Search.list env (← Run.files s) r
  noteAll (Search.notices listings)
  listings.forM fun l => Run.writeLine s (toolLine l)

/-- The steps of an order; listing the tools has none. -/
def Order.steps (c : ProjectConfig) (r : Registry) : Order → List Step
  | .format none => Builtin.formatters c r
  | .format (some .cpp) => [.format (Builtin.formatCpp c r)]
  | .format (some .meson) => [.format (Builtin.formatMeson c r)]
  | .format (some .python) => [.format (Builtin.formatPython c r)]
  | .lintCpp args => [.lint (Builtin.lintCpp c r args)]
  | .lintMeson => [.analyze (Builtin.lintMeson c r)]
  | .tools => []

/-- The root of the project: the given one, else the working directory. -/
def projectRoot (s : Setting σ) (given : Option Path) : Run σ Path := do
  match given.or (← Run.files s).here? with
  | some root => return root
  | none => throw (.io (.ofString ".") .notFound)

/-- Carries out an order in the project at a root. -/
def perform (s : Setting σ) (env : Machine.Environment) (root : Option Path) (order : Order) :
    Run σ Unit := do
  let c ← loadConfig s (← projectRoot s root)
  noteAll (Registry.notices c.tools)
  let registry := Registry.ofPaths c.tools
  match order with
  | .tools => listTools s env registry
  | order => discard (Chain.runSteps s (order.steps c registry))

/-- Tells the user about an error: in the report if it belongs there, else in the log. -/
def tell (s : Setting σ) (e : Error) : Run σ Unit :=
  if e.isReported then
    -- a report that cannot be written to leaves the log
    tryCatch (Run.writeLine s ["ERROR: ", e.message]) fun cause =>
      match cause with
      | .output cause =>
        Run.log .error .program s!"{e.message} (could not print: {cause.message})"
      | cause => throw cause
  else Run.log .error .program e.message

/-- Carries out an order and tells about the error that stops it: the exit code. -/
def conclude (s : Setting σ) (env : Machine.Environment) (root : Option Path) (order : Order) :
    StateM (World σ) Nat := do
  match ← (perform s env root order).run with
  | .ok () => return 0
  | .error e =>
    let _ ← (tell s e).run
    return e.exitCode

/-- What the program finds around it when it starts. -/
structure Start where
  files : FileSystem
  env : Machine.Environment
  args : List Bytes

/-- What the program leaves behind; it has no exit code if a signal ends it. -/
structure Finish where
  exitCode : Option Nat
  output : Bytes
  complaints : Bytes
  files : FileSystem

/-- The settings of the log: the program's own, else those shared with others. Settings that are no
text count as missing. -/
def logText (env : Machine.Environment) : String :=
  let setting (name : String) : Option String := (env.get? name).bind Utf8.decode?
  ((setting "TIDYUP_LOG").or (setting "RUST_LOG")).getD "tidyup=warn"

/-- A journal up to the end of the program. What the command shows that ran then belongs to it, if a
signal ended the program: nothing else does. -/
def untilKilled : List Event → List Event × Bool
  | [] => ([], false)
  | .shown (.killed _) :: rest =>
    let isShown : Event → Bool
      | .shown _ => true
      | _ => false
    (rest.takeWhile isShown, true)
  | e :: rest =>
    let (journal, killed) := untilKilled rest
    (e :: journal, killed)

/-- What comes to the standard output in a journal. -/
def outputOf (journal : List Event) : Bytes :=
  journal.flatMap fun
    | .wrote piece | .refused piece _ => Bytes.ofString piece
    | .shown (.output bytes) => bytes
    | _ => []

/-- What comes to the standard error stream in a journal: records that the filter admits, with the
widest topic so far, and complaints of commands. -/
def complaintsOf (filter : Log.Filter) : (width : Nat) → List Event → Bytes
  | _, [] => []
  | width, e :: rest =>
    match e with
    | .shown (.complaint bytes) => bytes ++ complaintsOf filter width rest
    | e =>
      match e.record? with
      | some r =>
        if filter.admits r then
          Bytes.ofString (String.join (Log.lines width [r])) ++
            complaintsOf filter (max width r.topic.name.length) rest
        else complaintsOf filter width rest
      | none => complaintsOf filter width rest

/-- Runs the program where a runner, which starts in a state, answers its requests. -/
def runOn (runner : Runner σ) (state : σ) (s : Start) : Finish :=
  let (filter, warnings) := Log.Filter.ofText (logText s.env)
  let warned := Bytes.ofString (String.join (warnings.map (· ++ "\n")))
  match Reading.ofArguments s.args with
  -- the log is set up before the arguments are looked at
  | .message text => ⟨some 0, Bytes.ofString text, warned, s.files⟩
  | .wrong => ⟨some 2, [], warned, s.files⟩
  | .order root order =>
    let setting : Setting σ := ⟨s.files.cwd, runner, .willing⟩
    let (code, w) := (conclude setting s.env root order).run ⟨s.files.tree, state, []⟩
    let (journal, killed) := untilKilled w.journal
    ⟨if killed then none else some code, outputOf journal, warned ++ complaintsOf filter 0 journal,
      { s.files with tree := w.tree }⟩

/-- Runs the program on the machine whose programs stand in its files. -/
def run (s : Start) : Finish := runOn (Machine.runner s.env s.files.cwd) { host := () } s

end Groom.CommandLine
