import Mathlib.Data.List.Forall2
import Groom.Builtin
import Groom.Proofs.Parts
import Groom.Proofs.SteadyWalk

/-! The calls of a chain of formatting steps whose tools all succeed and change at most the bytes of
files. Although every step walks the tree lazily, while tools rewrite its files, the calls are those
that can be listed beforehand from the tree in which the chain starts. -/
namespace Groom

variable {σ α β : Type}

/-- Given these requests one after another, the runner of a setting succeeds at each and keeps the
layout of the tree. -/
def Setting.Obliges (s : Setting σ) : List Request → σ → Tree → Prop
  | [], _, _ => True
  | request :: rest, state, tree =>
    let reply := s.runner request state tree
    reply.answer = .ok .success ∧ tree.SameLayout reply.tree ∧
      s.Obliges rest reply.state reply.tree

/-- A runner that always succeeds and keeps layouts obliges whatever it is given. -/
theorem Setting.obliges_of_forall {s : Setting σ} (h : ∀ request state tree,
      (s.runner request state tree).answer = .ok .success ∧
        tree.SameLayout (s.runner request state tree).tree)
    (requests : List Request) (state : σ) (tree : Tree) : s.Obliges requests state tree := by
  induction requests generalizing state tree with
  | nil => trivial
  | cons request rest ih =>
    obtain ⟨hanswer, hlayout⟩ := h request state tree
    exact ⟨hanswer, hlayout, ih _ _⟩

/-- Calls that were all answered with success. -/
def succeeded (requests : List Request) : List (Request × Except IoError Status) :=
  requests.map (·, .ok .success)

/-- In trees of one layout, a run makes exactly these requests, as long as the runner obliges, and
comes to a good end. -/
def Performs (s : Setting σ) (t : Tree) (m : Run σ α) (requests : List Request)
    (good : α → Prop) : Prop :=
  ∀ w more, t.SameLayout w.tree → s.Obliges (requests ++ more) w.runner w.tree →
    m.Meets w fun ds r w' => calls ds = succeeded requests ∧ (∃ a, r = .ok a ∧ good a) ∧
      t.SameLayout w'.tree ∧ s.Obliges more w'.runner w'.tree

namespace Performs

variable {s : Setting σ} {t : Tree} {m : Run σ α} {f : α → Run σ β} {requests more : List Request}
  {good : α → Prop} {better : β → Prop}

theorem pure {a : α} (h : good a) : Performs s t (pure a : Run σ α) [] good :=
  fun _ _ hw hobliges => .pure ⟨rfl, ⟨a, rfl, h⟩, hw, hobliges⟩

theorem bind (hm : Performs s t m requests good)
    (hf : ∀ a, good a → Performs s t (f a) more better) :
    Performs s t (m >>= f) (requests ++ more) better := by
  intro w rest hw hobliges
  rw [List.append_assoc] at hobliges
  refine (hm w (more ++ rest) hw hobliges).bind ?_ ?_
  -- the runner has obliged what the first part asked of it, and still obliges the rest
  · intro ds a w' hmeets
    obtain ⟨hcalls, ⟨a', ha, hgood⟩, hw', hobliges'⟩ := hmeets
    cases ha
    refine (hf a hgood w' rest hw' hobliges').mono fun ds' r w'' hmeets => ?_
    obtain ⟨hcalls', hend⟩ := hmeets
    refine ⟨?_, hend⟩
    rw [calls_append, hcalls, hcalls', succeeded, succeeded, succeeded, List.map_append]
  · intro ds e w' hmeets
    obtain ⟨-, ⟨a, ha, -⟩, -⟩ := hmeets
    cases ha

theorem mono (hm : Performs s t m requests good) {fine : α → Prop} (h : ∀ a, good a → fine a) :
    Performs s t m requests fine := by
  intro w more hw hobliges
  refine (hm w more hw hobliges).mono fun ds r w' hmeets => ?_
  obtain ⟨hcalls, ⟨a, ha, hgood⟩, hend⟩ := hmeets
  exact ⟨hcalls, ⟨a, ha, h a hgood⟩, hend⟩

/-- A part that makes no request may come first. -/
theorem after_quiet (hm : Performs s t m [] good)
    (hf : ∀ a, good a → Performs s t (f a) requests better) :
    Performs s t (m >>= f) requests better :=
  hm.bind hf

/-- A part that makes no request may come last. -/
theorem then_quiet (hm : Performs s t m requests good)
    (hf : ∀ a, good a → Performs s t (f a) [] better) :
    Performs s t (m >>= f) requests better := by
  rw [← List.append_nil requests]
  exact hm.bind hf

/-- A run that only looks around and talks makes no request, and what it finds out is good. -/
theorem of_idle (hm : m.Idle) (hgood : ∀ w a, t.SameLayout w.tree → m.outcome w = .ok a → good a) :
    Performs s t m [] good := by
  intro w more hw hobliges
  refine (hm w).exactly.mono fun ds r w' hmeets => ?_
  obtain ⟨⟨rfl, ⟨a, rfl⟩, hs⟩, hr, -⟩ := hmeets
  rw [hs.1, hs.2]
  exact ⟨rfl, ⟨a, rfl, hgood w a hw hr⟩, hw, hobliges⟩

/-- What is made of an error is of no interest where there is none. -/
theorem tryCatch (hm : Performs s t m requests good) (handle : Error → Run σ α) :
    Performs s t (tryCatch m handle) requests good := by
  intro w more hw hobliges
  refine (hm w more hw hobliges).tryCatch (fun ds a w' h => h) fun ds e w' hmeets => ?_
  obtain ⟨-, ⟨a, ha, -⟩, -⟩ := hmeets
  cases ha

theorem forM (as : List α) {f : α → Run σ Unit} {request : α → Request}
    (hf : ∀ a ∈ as, Performs s t (f a) [request a] fun _ => True) :
    Performs s t (as.forM f) (as.map request) fun _ => True := by
  induction as with
  | nil => exact .pure trivial
  | cons a rest ih =>
    have hrest := ih fun x hx => hf x (List.mem_cons_of_mem a hx)
    exact (hf a List.mem_cons_self).bind fun _ _ => hrest

/-- A consumer of a flow whose members are foreseen makes the requests for each, in their order. -/
theorem foldM {f : β → α → Run σ β} {requests : α → List Request} {inv : List α → β → Prop}
    {flow : Flow (Run σ) α} {members : List α} (hflow : flow.Foreseen t.SameLayout members)
    (hf : ∀ done a b, a ∈ members → inv done b →
      Performs s t (f b a) (requests a) (inv (done ++ [a])))
    (done : List α) (b : β) (h : inv done b) :
    Performs s t (flow.foldM f b) (members.flatMap requests) (inv (done ++ members)) := by
  induction flow generalizing members done b with
  | done =>
    obtain rfl : members = [] := hflow
    rw [List.append_nil]
    exact .pure h
  | next a rest ih =>
    obtain ⟨later, rfl, hrest⟩ := hflow
    rw [List.append_cons, List.flatMap_cons]
    refine (hf done a b List.mem_cons_self h).bind fun b' hb' => ?_
    exact ih hrest (fun done a b ha => hf done a b (List.mem_cons_of_mem _ ha)) _ b' hb'
  | ask question rest ih =>
    -- what is asked now has the answer that it would have had in the first tree
    have hquestion : Performs s t question [] fun r => (rest r).Foreseen t.SameLayout members :=
      of_idle hflow.1 fun w r hw hr => hflow.2 r w hw hr
    exact hquestion.after_quiet fun r hr => ih r hr hf done b h

end Performs

section

variable {s : Setting σ} {t : Tree}

theorem performs_call {m : Run σ Unit} {request : Request}
    {verdict : Except IoError Status → Except Error Unit} (hm : Run.IsCall s m request verdict)
    (hverdict : verdict (.ok .success) = .ok ()) : Performs s t m [request] fun _ => True := by
  intro w more hw hobliges
  obtain ⟨hanswer, hlayout, hmore⟩ := hobliges
  refine (hm w _ rfl).mono fun ds r w' hmeets => ?_
  obtain ⟨rfl, rfl, htree, hrunner⟩ := hmeets
  rw [hanswer, hverdict, htree, hrunner]
  exact ⟨rfl, ⟨(), rfl, trivial⟩, hw.trans hlayout, hmore⟩

theorem performs_log (level : Log.Level) (topic : Log.Topic) (message : String) :
    Performs s t (Run.log level topic message) [] fun _ => True :=
  .of_idle (Run.idle_log level topic message) fun _ _ _ _ => trivial

theorem performs_files :
    Performs s t (Run.files s) [] fun fs => ∃ tree, fs = ⟨tree, s.cwd⟩ ∧ t.SameLayout tree :=
  .of_idle (Run.idle_files s) fun w _ hw hr => ⟨w.tree, (Except.ok.inj hr).symm, hw⟩

/-- A file that is one in the first tree can be captured in all trees of its layout. -/
theorem performs_capture {file : Path} (hfile : (FileSystem.mk t s.cwd).isFile file = true) :
    Performs s t (Run.capture s file) [] fun _ => True := by
  intro w more hw hobliges
  have hfile' : (FileSystem.mk w.tree s.cwd).isFile file = true := by
    rw [FileSystem.isFile_layout hw, hfile]
  obtain ⟨loc, content, hleads, hcontent⟩ := FileSystem.isFile_iff.mp hfile'
  have hread := FileSystem.read_of_leadsTo hleads hcontent
  refine (Run.capture_meets s file w).mono fun ds r w' hmeets => ?_
  obtain ⟨rfl, rfl, hs⟩ := hmeets
  rw [hread, hs.1, hs.2]
  exact ⟨rfl, ⟨content, rfl, trivial⟩, hw, hobliges⟩

theorem performs_line (hwriter : ∀ taken piece, s.writer.refuse taken piece = none)
    (pieces : List String) : Performs s t (Run.writeLine s pieces) [] fun _ => True := by
  intro w more hw hobliges
  refine (Run.writeLine_meets s pieces w).mono fun ds r w' hmeets => ?_
  obtain ⟨hs, ⟨rfl, rfl, -⟩ | ⟨taken, piece, left, refusal, -, hrefuses, -, -⟩⟩ := hmeets
  · rw [hs.1, hs.2]
    exact ⟨calls_map_wrote _, ⟨(), rfl, trivial⟩, hw, hobliges⟩
  · cases (hwriter _ _).symm.trans hrefuses.refused

namespace Formatting

/-- The passes are all that is requested for a file, and its absolute form is reported. -/
theorem performs_processOne (passes : List Tool) {file : Path}
    (hfile : (FileSystem.mk t s.cwd).isFile file = true) :
    Performs s t (processOne s passes file) (passes.map (·.workRequest file))
      fun o => o.path = (FileSystem.mk t s.cwd).absolute file := by
  refine (performs_capture hfile).after_quiet fun before _ => ?_
  have hpass (pass : Tool) :
      Performs s t (pass.invokeChecked s file) [pass.workRequest file] fun _ => True :=
    performs_call (pass.isCall_work s file) rfl
  refine (Performs.forM passes fun pass _ => hpass pass).then_quiet fun _ _ => ?_
  refine (performs_capture hfile).after_quiet fun after _ => ?_
  refine (performs_log _ _ _).after_quiet fun _ _ => performs_files.after_quiet fun fs hfs => ?_
  obtain ⟨tree, rfl, htree⟩ := hfs
  exact .pure (FileSystem.absolute_layout htree s.cwd file)

theorem performs_record (hwriter : ∀ taken piece, s.writer.refuse taken piece = none)
    (r : FormatReport) (o : FileOutcome) :
    Performs s t (record s r o) [] fun r' => r'.processed = r.processed ++ [o.path] := by
  unfold record
  split
  · exact (performs_line hwriter _).after_quiet fun _ _ => .pure rfl
  · exact .pure rfl

end Formatting

namespace FormatStep

/-- The files that a step works on in a tree to which nothing happens meanwhile. -/
def files (step : FormatStep) (fs : FileSystem) : List Path :=
  Walk.survey fs step.root step.selection

/-- What a step requests, if nothing fails: all probes, and then for each file all passes. -/
def requests (step : FormatStep) (fs : FileSystem) : List Request :=
  step.probes.map Tool.probeRequest ++
    (step.files fs).flatMap fun file => step.passes.map (·.workRequest file)

/-- The report of a step that has processed all its files. -/
def Completes (step : FormatStep) (fs : FileSystem) (report : StepReport) : Prop :=
  ∃ r : FormatReport, report = .formatted r ∧ r.processed = (step.files fs).map fs.absolute

theorem performs (hwriter : ∀ taken piece, s.writer.refuse taken piece = none) (step : FormatStep) :
    Performs s t (step.run s) (step.requests ⟨t, s.cwd⟩) (step.Completes ⟨t, s.cwd⟩) := by
  let fs : FileSystem := ⟨t, s.cwd⟩
  let inv : List Path → FormatReport → Prop := fun done r => r.processed = done.map fs.absolute
  have hfile (done : List Path) (file : Path) (r : FormatReport) (hmem : file ∈ step.files fs)
      (hr : inv done r) :
      Performs s t (Formatting.processOne s step.passes file >>= Formatting.record s r)
        (step.passes.map (·.workRequest file)) (inv (done ++ [file])) := by
    have hisFile : fs.isFile file = true := Walk.isFile_of_mem_survey hmem
    refine (Formatting.performs_processOne step.passes hisFile).then_quiet fun o ho => ?_
    refine (Formatting.performs_record hwriter r o).mono fun r' hr' => ?_
    show r'.processed = (done ++ [file]).map fs.absolute
    rw [hr', hr, ho, List.map_append, List.map_singleton]
  have hreport : Performs s t (Formatting.report s
      ((Walk.targets s step.root step.selection).mapM (Formatting.processOne s step.passes)))
      ((step.files fs).flatMap fun file => step.passes.map (·.workRequest file))
      (inv (step.files fs)) := by
    unfold Formatting.report
    rw [Flow.foldM_mapM]
    exact .foldM (Walk.foreseen_survey t s step.root step.selection) hfile [] {} rfl
  have hprobe (tool : Tool) :
      Performs s t (tool.ensureAvailable s) [tool.probeRequest] fun _ => True :=
    performs_call (tool.isCall_probe s) rfl
  refine (Performs.forM step.probes fun tool _ => hprobe tool).bind fun _ _ => ?_
  refine (performs_log _ _ _).after_quiet fun _ _ => hreport.then_quiet fun r hr => ?_
  exact .pure ⟨r, rfl, hr⟩

end FormatStep

/-- A chain of formatting steps makes the requests of its steps, one step after another, each of
them for the files that it would come to in the tree in which the chain starts. -/
theorem Chain.performs_formats (hwriter : ∀ taken piece, s.writer.refuse taken piece = none)
    (steps : List FormatStep) :
    Performs s t (Chain.runSteps s (steps.map .format)) (steps.flatMap (·.requests ⟨t, s.cwd⟩))
      fun reports => List.Forall₂ (·.Completes ⟨t, s.cwd⟩) steps reports := by
  induction steps with
  | nil => exact .pure .nil
  | cons step rest ih =>
    rw [List.map_cons, Chain.runSteps_cons, List.flatMap_cons]
    have htask : Performs s t (Chain.runTask (Step.task s (.format step)))
        (step.requests ⟨t, s.cwd⟩) (step.Completes ⟨t, s.cwd⟩) :=
      (performs_log _ _ _).after_quiet fun _ _ => (step.performs hwriter).tryCatch _
    refine htask.bind fun report hreport => ih.then_quiet fun reports hreports => ?_
    exact .pure (.cons hreport hreports)

end

namespace ProjectConfig

/-- The program of a tool: the configured one, or the one that has the tool's name. -/
def program (c : ProjectConfig) (tool : String) : Path :=
  .ofString ((c.tools.get? tool).getD tool)

def probe (c : ProjectConfig) (tool : String) (args : List String) : Request :=
  ⟨c.program tool, args.map Bytes.ofString, .capture⟩

def work (c : ProjectConfig) (tool : String) (args : List String) (files : List Path) : Request :=
  ⟨c.program tool, args.map Bytes.ofString ++ files.map Path.bytes, .inherit⟩

end ProjectConfig

theorem Registry.tool_ofPaths (paths : ToolPaths) (id : ToolId) :
    (Registry.ofPaths paths).tool id = id.builtin.withProgram
      (.ofString ((paths.get? id.builtin.name).getD id.builtin.name)) := by
  cases h : paths.get? id.builtin.name with
  | some path => simp [ofPaths, h]
  | none =>
    have hprogram : id.builtin.withProgram (.ofString id.builtin.name) = id.builtin := by
      cases id <;> rfl
    simp [ofPaths, h, hprogram]

namespace Builtin

variable (c : ProjectConfig) (fs : FileSystem)

def cppFiles : List Path := Walk.survey fs c.sourceDir (.suffixes ["c", "cpp", "h", "hpp"])

def mesonFiles : List Path := Walk.survey fs c.root (.names ["meson.build", "meson_options.txt"])

def pythonFiles : List Path := Walk.survey fs c.root (.suffixes ["py"])

/-- What the formatting steps request if nothing fails, listed from the tree in which they start. -/
def formatterRequests : List Request :=
  [c.probe "clang-format" ["--version"]] ++
    (cppFiles c fs).map (fun f => c.work "clang-format" ["-i"] [f]) ++
  [c.probe "muon" ["fmt", "-h"]] ++
    (mesonFiles c fs).map (fun f => c.work "muon" ["fmt", "-i", "-c"] [c.muonConfig, f]) ++
  [c.probe "yapf" ["--version"], c.probe "isort" ["--version"]] ++
    (pythonFiles c fs).flatMap fun f => [c.work "isort" ["-q"] [f], c.work "yapf" ["-i"] [f]]

theorem requests_formatCpp : (formatCpp c (.ofPaths c.tools)).requests fs =
    [c.probe "clang-format" ["--version"]] ++
      (cppFiles c fs).map fun f => c.work "clang-format" ["-i"] [f] := by
  unfold formatCpp
  rw [Registry.tool_ofPaths, List.map_eq_flatMap]
  rfl

theorem requests_formatMeson : (formatMeson c (.ofPaths c.tools)).requests fs =
    [c.probe "muon" ["fmt", "-h"]] ++
      (mesonFiles c fs).map fun f => c.work "muon" ["fmt", "-i", "-c"] [c.muonConfig, f] := by
  unfold formatMeson
  rw [Registry.tool_ofPaths, List.map_eq_flatMap]
  rfl

theorem requests_formatPython : (formatPython c (.ofPaths c.tools)).requests fs =
    [c.probe "yapf" ["--version"], c.probe "isort" ["--version"]] ++
      (pythonFiles c fs).flatMap fun f =>
        [c.work "isort" ["-q"] [f], c.work "yapf" ["-i"] [f]] := by
  unfold formatPython
  rw [Registry.tool_ofPaths, Registry.tool_ofPaths]
  rfl

/-- A run of the formatting steps of a project, with a report that takes everything and a runner
that succeeds at every call and changes at most the bytes of files. It succeeds with one report for
each step, on the files that a walk over the first tree finds, and its calls are exactly those that
can be listed from that tree. -/
theorem formatters_trace (s : Setting σ) (c : ProjectConfig) (w : World σ)
    (hwriter : ∀ taken piece, s.writer.refuse taken piece = none)
    (hrunner : s.Obliges (formatterRequests c ⟨w.tree, s.cwd⟩) w.runner w.tree) :
    let fs := FileSystem.mk w.tree s.cwd
    let chain := Chain.runSteps s (formatters c (.ofPaths c.tools))
    (Walk.targets s c.sourceDir (.bySuffix [".c", ".cpp", ".h", ".hpp"])).toList.outcome w =
        .ok (cppFiles c fs) ∧
    (Walk.targets s c.root (.names ["meson.build", "meson_options.txt"])).toList.outcome w =
        .ok (mesonFiles c fs) ∧
    (Walk.targets s c.root (.bySuffix [".py"])).toList.outcome w = .ok (pythonFiles c fs) ∧
    (∃ cpp meson python : FormatReport,
      chain.outcome w = .ok [.formatted cpp, .formatted meson, .formatted python] ∧
      cpp.processed = (cppFiles c fs).map fs.absolute ∧
      meson.processed = (mesonFiles c fs).map fs.absolute ∧
      python.processed = (pythonFiles c fs).map fs.absolute) ∧
    ∃ events, (chain.after w).journal = w.journal ++ events ∧
      calls events = succeeded (formatterRequests c fs) := by
  intro fs chain
  have walked (root : Path) (selection : Selection) :
      (Walk.targets s root selection).toList.outcome w = .ok (Walk.survey fs root selection) :=
    (Walk.foreseen_survey w.tree s root selection).toList w (.refl w.tree)
  let r : Registry := .ofPaths c.tools
  let steps : List FormatStep := [formatCpp c r, formatMeson c r, formatPython c r]
  have hrequests : steps.flatMap (·.requests fs) = formatterRequests c fs := by
    simp only [steps, r, List.flatMap_cons, List.flatMap_nil, requests_formatCpp,
      requests_formatMeson, requests_formatPython, formatterRequests, List.append_assoc,
      List.append_nil]
  have hobliges : s.Obliges (steps.flatMap (·.requests fs) ++ []) w.runner w.tree := by
    rw [hrequests, List.append_nil]
    exact hrunner
  obtain ⟨events, hj, hcalls, ⟨reports, hr, hcomplete⟩, -⟩ :=
    Chain.performs_formats hwriter steps w [] (.refl w.tree) hobliges
  refine ⟨walked _ _, walked _ _, walked _ _, ?_, events, hj, ?_⟩
  · obtain ⟨_, _, ⟨cpp, rfl, hcpp⟩, hrest, rfl⟩ := List.forall₂_cons_left_iff.mp hcomplete
    obtain ⟨_, _, ⟨meson, rfl, hmeson⟩, hlast, rfl⟩ := List.forall₂_cons_left_iff.mp hrest
    obtain ⟨_, _, ⟨python, rfl, hpython⟩, hnil, rfl⟩ := List.forall₂_cons_left_iff.mp hlast
    obtain rfl := List.forall₂_nil_left_iff.mp hnil
    exact ⟨cpp, meson, python, hr, hcpp, hmeson, hpython⟩
  · rw [← calls_deeds, hcalls, hrequests]

/-- A run on a project with a source file, a link to it, a build file and a script, with another
program for one of the tools, and a runner that gives the same bytes to each file on which it is set
to work. -/
theorem formatters_trace_of_small_project :
    let src : Name := ⟨Bytes.ofString "src", by decide⟩
    let file (content : Bytes) : Node := .file content false
    let cwd : Working := ⟨[], 0⟩
    let touch (tree : Tree) (path : Path) : Tree :=
      match (FileSystem.mk tree cwd).resolve .follow path with
      | .ok (.entry loc (.file _ executable)) => tree.put loc (.file [1] executable)
      | _ => tree
    let s : Setting Unit := ⟨cwd, fun request _ tree => ⟨.ok .success, [], (),
      match request.output, request.args.getLast? with
      | .inherit, some path => touch tree ⟨path⟩
      | _, _ => tree⟩, .willing⟩
    let c : ProjectConfig := (ProjectConfig.default (.ofString "/")).withTool "isort" "/opt/isort"
    let w : World Unit := ⟨⟨[(⟨Bytes.ofString "b.py", by decide⟩, file [2]),
      (⟨Bytes.ofString "meson.build", by decide⟩, file [3]),
      (src, .directory [(⟨Bytes.ofString "l.c", by decide⟩, .link (Bytes.ofString "a.h")),
        (⟨Bytes.ofString "a.h", by decide⟩, file [4])])], []⟩, (), []⟩
    let fs := FileSystem.mk w.tree cwd
    let chain := Chain.runSteps s (formatters c (.ofPaths c.tools))
    let request (program : String) (args : List String) (output : Output) : Request :=
      ⟨.ofString program, args.map Bytes.ofString, output⟩
    let requests : List Request := [
      request "clang-format" ["--version"] .capture,
      request "clang-format" ["-i", "/src/a.h"] .inherit,
      request "clang-format" ["-i", "/src/l.c"] .inherit,
      request "muon" ["fmt", "-h"] .capture,
      request "muon" ["fmt", "-i", "-c", "/.muon.ini", "/meson.build"] .inherit,
      request "yapf" ["--version"] .capture,
      request "/opt/isort" ["--version"] .capture,
      request "/opt/isort" ["-q", "/b.py"] .inherit,
      request "yapf" ["-i", "/b.py"] .inherit]
    (∀ taken piece, s.writer.refuse taken piece = none) ∧
      s.Obliges (formatterRequests c fs) w.runner w.tree ∧
      formatterRequests c fs = requests ∧
      (∃ cpp meson python : FormatReport,
        chain.outcome w = .ok [.formatted cpp, .formatted meson, .formatted python] ∧
        cpp.processed = [.ofString "/src/a.h", .ofString "/src/a.h"] ∧
        meson.processed = [.ofString "/meson.build"] ∧
        python.processed = [.ofString "/b.py"]) ∧
      ∃ events, (chain.after w).journal = w.journal ++ events ∧
        calls events = succeeded requests := by
  intro src file cwd touch s c w fs chain request requests
  have hwriter : ∀ taken piece, s.writer.refuse taken piece = none := fun _ _ => rfl
  have htouch (tree : Tree) (path : Path) : tree.SameLayout (touch tree path) := by
    unfold touch
    split
    · rename_i loc content executable hr
      exact .put_file (FileSystem.node?_of_resolve hr)
    · exact .refl tree
  have hobliges : s.Obliges (formatterRequests c fs) w.runner w.tree := by
    refine Setting.obliges_of_forall (fun request _ tree => ⟨rfl, ?_⟩) _ _ _
    dsimp only [s]
    split
    · exact htouch _ _
    · exact .refl _
  have hcpp : cppFiles c fs = [.ofString "/src/a.h", .ofString "/src/l.c"] := by decide +kernel
  have hmeson : mesonFiles c fs = [.ofString "/meson.build"] := by decide +kernel
  have hpython : pythonFiles c fs = [.ofString "/b.py"] := by decide +kernel
  have hrequests : formatterRequests c fs = requests := by
    rw [formatterRequests, hcpp, hmeson, hpython]
    rfl
  obtain ⟨-, -, -, ⟨cpp, meson, python, hr, hcpp', hmeson', hpython'⟩, events, hj, hcalls⟩ :=
    formatters_trace s c w hwriter hobliges
  refine ⟨hwriter, hobliges, hrequests, ⟨cpp, meson, python, hr, ?_, ?_, ?_⟩, events, hj, ?_⟩
  · rw [hcpp', hcpp]
    decide +kernel
  · rw [hmeson', hmeson]
    decide +kernel
  · rw [hpython', hpython]
    decide +kernel
  · rw [hcalls, hrequests]

end Builtin

end Groom
