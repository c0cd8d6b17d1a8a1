import Groom.Proofs.FormatChain
import Groom.Proofs.Phases
import Groom.Proofs.Renaming

/-! Configured programs. A program that is configured for a tool takes the place of the tool's own
in all steps that use the tool, and nothing else depends on it. -/
namespace Groom

variable {σ : Type}

namespace ProjectConfig

variable (c : ProjectConfig)

/-- The program that stands for another: the configured one for that of a built-in tool. -/
def renamed (program : Path) : Path :=
  match ToolId.all.find? fun id => Path.ofString id.builtin.name = program with
  | some id => c.program id.builtin.name
  | none => program

theorem renamed_name (id : ToolId) :
    c.renamed (.ofString id.builtin.name) = c.program id.builtin.name := by
  cases id <;> rfl

end ProjectConfig

namespace Builtin

variable (c : ProjectConfig)

theorem plain_tool (id : ToolId) : (Registry.ofPaths {}).tool id = id.builtin := by
  cases id <;> rfl

theorem tool_renamed (id : ToolId) :
    (Registry.ofPaths c.tools).tool id = ((Registry.ofPaths {}).tool id).renamed c.renamed := by
  have hprogram : id.builtin.program = .ofString id.builtin.name := by cases id <;> rfl
  rw [Registry.tool_ofPaths, plain_tool, Tool.renamed, hprogram, c.renamed_name]
  rfl

theorem plain_of_tools (id : StepId) :
    ∀ t ∈ (id.step { c with tools := {} } (.ofPaths {})).tools, t.Plain := by
  have hplain (tool : ToolId) : ((Registry.ofPaths {}).tool tool).Plain := by
    refine ⟨?_, tool, ?_⟩ <;> cases tool <;> rfl
  have hinvoked (tool : ToolId) (invocation : List Arg) :
      (((Registry.ofPaths {}).tool tool).withInvocation invocation).Plain := hplain tool
  intro t ht
  cases id with
  | formatCpp =>
    obtain rfl : t = _ := by simpa [StepId.step, Step.tools, formatCpp] using ht
    exact hinvoked .clangFormat _
  | formatMeson =>
    obtain rfl : t = _ := by simpa [StepId.step, Step.tools, formatMeson] using ht
    exact hinvoked .muonFmt _
  | formatPython =>
    simp only [StepId.step, Step.tools, formatPython, List.mem_append, List.mem_cons,
      List.not_mem_nil, or_false] at ht
    obtain (rfl | rfl) | rfl | rfl := ht
    · exact hinvoked .yapf _
    · exact hinvoked .isort _
    · exact hinvoked .isort _
    · exact hinvoked .yapf _
  | lintMeson =>
    obtain rfl := List.mem_singleton.mp ht
    exact hinvoked .muonAnalyze _
  | lintCpp extraArgs =>
    obtain rfl := List.mem_singleton.mp ht
    exact hplain .clangTidy

theorem step_renamed (id : StepId) : id.step c (.ofPaths c.tools) =
    (id.step { c with tools := {} } (.ofPaths {})).renamed c.renamed := by
  cases id <;> simp only [StepId.step, formatCpp, formatMeson, formatPython, lintMeson, lintCpp,
    tool_renamed c] <;> rfl

/-- The names of the tools whose programs can be configured. -/
def toolNames : List String := ["clang-format", "clang-tidy", "muon", "isort", "yapf"]

theorem mem_toolNames (id : ToolId) : id.builtin.name ∈ toolNames := by
  cases id <;> decide

/-- A configured program takes the place of a tool's own and changes nothing else. With a runner
that treats the program configured for each tool as another runner treats the tool's own, a chain of
built-in steps makes the calls that it would make without any configured program, each to the
configured one: with the same arguments and outputs, the same text for the report, the same trees
after each call and in the end, and the same result; but if a tool cannot be started for its real
work, the error is about the program that was tried. Other keys than the names of tools make no
difference, and the one of `muon` counts for the formatter and for the analyzer. -/
theorem overrides_rename_programs (s : Setting σ) (runner : Runner σ) (c : ProjectConfig)
    (ids : List StepId) (w : World σ)
    (hrunner : ∀ (id : ToolId) args output state tree,
      let reply := s.runner ⟨.ofString id.builtin.name, args, output⟩ state tree
      let reply' := runner ⟨c.program id.builtin.name, args, output⟩ state tree
      reply'.answer = reply.answer ∧ reply'.state = reply.state ∧ reply'.tree = reply.tree) :
    let c₀ : ProjectConfig := { c with tools := {} }
    let s' : Setting σ := { s with runner := runner }
    let plain := Chain.runSteps s (ids.map (·.step c₀ (.ofPaths c₀.tools)))
    let chain := Chain.runSteps s' (ids.map (·.step c (.ofPaths c.tools)))
    (∃ events events', (plain.after w).journal = w.journal ++ events ∧
      (chain.after w).journal = w.journal ++ events' ∧
      deeds events' = (deeds events).map (Event.renamed c.renamed) ∧
      (∀ call ∈ calls events, ∃ id : ToolId, call.1.program = .ofString id.builtin.name ∧
        c.renamed call.1.program = c.program id.builtin.name) ∧
      text events' = text events ∧
      (∀ k, s'.replay (((calls events').map (·.1)).take k) (w.runner, w.tree) =
        s.replay (((calls events).map (·.1)).take k) (w.runner, w.tree)) ∧
      (chain.after w).tree = (plain.after w).tree ∧
      (chain.after w).runner = (plain.after w).runner ∧
      EndAlike c.renamed (deeds events) (plain.outcome w) (chain.outcome w)) ∧
    (∀ tools : ToolPaths, (∀ name ∈ toolNames, tools.get? name = c.tools.get? name) →
      Registry.notices tools = Registry.notices c.tools ∧
      Registry.ofPaths tools = Registry.ofPaths c.tools ∧
      ∀ id : StepId, id.step { c with tools } (.ofPaths tools) = id.step c (.ofPaths c.tools)) ∧
    ∀ t ∈ (StepId.formatMeson.step c (.ofPaths c.tools)).tools ++
        (StepId.lintMeson.step c (.ofPaths c.tools)).tools, t.program = c.program "muon" := by
  intro c₀ s' plain chain
  refine ⟨?_, ?_, ?_⟩
  · have hs : s'.Mimics s c.renamed := by
      refine ⟨rfl, rfl, fun id args output state tree => ?_⟩
      rw [c.renamed_name]
      exact hrunner id args output state tree
    have hsteps : ids.map (·.step c (.ofPaths c.tools)) =
        (ids.map (·.step c₀ (.ofPaths c₀.tools))).map (·.renamed c.renamed) := by
      rw [List.map_map]
      exact List.map_congr_left fun id _ => step_renamed c id
    have htools : ∀ step ∈ ids.map (·.step c₀ (.ofPaths c₀.tools)), ∀ t ∈ step.tools, t.Plain := by
      intro step hstep
      obtain ⟨id, -, rfl⟩ := List.mem_map.mp hstep
      exact plain_of_tools c id
    have hmirrors := Chain.mirrors hs htools w w ⟨rfl, rfl, rfl⟩
    rw [← hsteps] at hmirrors
    obtain ⟨events', hj', events, hj, hmatches⟩ := hmirrors
    have hcalls : calls events' =
        (calls events).map fun call => (call.1.renamed c.renamed, call.2) := by
      rw [← calls_deeds, hmatches.events, calls_renamed, calls_deeds]
    have hplain := hmatches.plain
    rw [calls_deeds] at hplain
    refine ⟨events, events', hj, hj', hmatches.events, ?_, ?_, fun k => ?_, hmatches.tree,
      hmatches.runner, hmatches.ends⟩
    · intro call hcall
      obtain ⟨id, hid⟩ := hplain call hcall
      exact ⟨id, hid, hid ▸ c.renamed_name id⟩
    · rw [← text_deeds, hmatches.events, text_renamed, text_deeds]
    · have hrequests : (calls events').map (·.1) =
          ((calls events).map (·.1)).map (Request.renamed c.renamed) := by
        rw [hcalls, List.map_map, List.map_map]
        rfl
      rw [hrequests, ← List.map_take]
      refine hs.replay (fun request hrequest => ?_) (w.runner, w.tree)
      obtain ⟨call, hcall, rfl⟩ := List.mem_map.mp (List.mem_of_mem_take hrequest)
      exact hplain call hcall
  · intro tools hsame
    have hget (id : ToolId) : tools.get? id.builtin.name = c.tools.get? id.builtin.name :=
      hsame _ (mem_toolNames id)
    have hregistry : Registry.ofPaths tools = Registry.ofPaths c.tools := by
      refine congrArg Registry.mk (funext fun id => ?_)
      rw [hget]
    refine ⟨?_, hregistry, fun id => ?_⟩
    · unfold Registry.notices
      simp only [hget]
    · rw [hregistry]
      cases id <;> rfl
  · have hprogram (id : ToolId) (hmuon : id.builtin.name = "muon") :
        ((Registry.ofPaths c.tools).tool id).program = c.program "muon" := by
      rw [Registry.tool_ofPaths, hmuon]
      rfl
    intro t ht
    simp only [StepId.step, Step.tools, formatMeson, lintMeson, List.mem_append, List.mem_cons,
      List.not_mem_nil, or_false, or_self] at ht
    obtain rfl | rfl := ht
    · exact hprogram .muonFmt rfl
    · exact hprogram .muonAnalyze rfl

/-- A project with a script, and with a program configured for the sorter of imports that is not to
be had, as the sorter itself is not: the error is about the one that was tried. A key that is not
the name of a tool is there too. -/
theorem override_of_missing_program :
    let missing (program : Path) : Runner Unit := fun request _ tree =>
      ⟨if request.output = .inherit ∧ request.program = program then .error .notFound
        else .ok .success, [], (), tree⟩
    let s : Setting Unit := ⟨⟨[], 0⟩, missing (.ofString "isort"), .willing⟩
    let runner := missing (.ofString "/opt/isort")
    let c : ProjectConfig := ((ProjectConfig.default (.ofString "/")).withTool "isort"
      "/opt/isort").withTool "muon-fmt" "/opt/muon"
    let w : World Unit :=
      ⟨⟨[(⟨Bytes.ofString "b.py", by decide⟩, .file [2] false)], []⟩, (), []⟩
    let ids : List StepId := [.formatPython, .lintMeson]
    let c₀ : ProjectConfig := { c with tools := {} }
    let plain := Chain.runSteps s (ids.map (·.step c₀ (.ofPaths c₀.tools)))
    let chain := Chain.runSteps { s with runner := runner } (ids.map (·.step c (.ofPaths c.tools)))
    (∀ (id : ToolId) args output state tree,
      let reply := s.runner ⟨.ofString id.builtin.name, args, output⟩ state tree
      let reply' := runner ⟨c.program id.builtin.name, args, output⟩ state tree
      reply'.answer = reply.answer ∧ reply'.state = reply.state ∧ reply'.tree = reply.tree) ∧
    (chain.after w).tree = (plain.after w).tree ∧
    Run.stop (plain.outcome w) = some (.io (.ofString "isort") .notFound) ∧
    Run.stop (chain.outcome w) = some (.io (.ofString "/opt/isort") .notFound) ∧
    Registry.ofPaths (c.tools.insert "muon-fmt" "/opt/other") = Registry.ofPaths c.tools := by
  intro missing s runner c w ids c₀ plain chain
  have hrunner : ∀ (id : ToolId) args output state tree,
      let reply := s.runner ⟨.ofString id.builtin.name, args, output⟩ state tree
      let reply' := runner ⟨c.program id.builtin.name, args, output⟩ state tree
      reply'.answer = reply.answer ∧ reply'.state = reply.state ∧ reply'.tree = reply.tree := by
    intro id args output state tree
    refine ⟨?_, rfl, rfl⟩
    have hsame : c.program id.builtin.name = .ofString "/opt/isort" ↔
        Path.ofString id.builtin.name = .ofString "isort" := by
      cases id <;> decide
    simp only [runner, s, missing, hsame]
  obtain ⟨⟨_, _, -, -, -, -, -, -, htree, -, -⟩, hothers, -⟩ :=
    overrides_rename_programs s runner c ids w hrunner
  have hplain : Run.stop (plain.outcome w) = some (.io (.ofString "isort") .notFound) := by
    decide +kernel
  have hchain : Run.stop (chain.outcome w) = some (.io (.ofString "/opt/isort") .notFound) := by
    decide +kernel
  have hkeys : ∀ name ∈ toolNames,
      (c.tools.insert "muon-fmt" "/opt/other").get? name = c.tools.get? name := by
    decide
  exact ⟨hrunner, htree, hplain, hchain, (hothers _ hkeys).2.1⟩

end Builtin

end Groom
