import Groom.Chain
import Groom.Proofs.Operation

/-! Laws about what a run does and how it ends. A law that passes from one part to the next, and
holds of the operations from which steps are made, holds of every chain of steps. -/
namespace Groom

open Run (stop)

variable {σ α β : Type}

/-- A property of the deeds of a run and the error that stops it, if one does. It holds of nothing,
and of two parts together if the first succeeds. -/
structure Law where
  holds : List Event → Option Error → Prop
  nothing : holds [] none
  append {ds ds' : List Event} {stop : Option Error} :
    holds ds none → holds ds' stop → holds (ds ++ ds') stop

namespace Law

variable {law : Law}

def Governs (law : Law) (m : Run σ α) : Prop :=
  ∀ w, m.Meets w fun ds r _ => law.holds ds (stop r)

theorem Governs.pure (a : α) : law.Governs (pure a : Run σ α) :=
  fun _ => .pure law.nothing

theorem Governs.bind {m : Run σ α} {f : α → Run σ β} (hm : law.Governs m)
    (hf : ∀ a, law.Governs (f a)) : law.Governs (m >>= f) := by
  intro w
  refine (hm w).bind ?_ fun ds e w' h => h
  intro ds a w' h
  exact (hf a w').mono fun ds' r w'' h' => law.append h h'

theorem Governs.of_idle {m : Run σ α} (hm : m.Idle) : law.Governs m := by
  intro w
  refine (hm w).mono ?_
  intro ds r w' hmeets
  obtain ⟨rfl, ⟨a, rfl⟩, -⟩ := hmeets
  exact law.nothing

theorem Governs.forM (as : List α) {f : α → Run σ Unit} (hf : ∀ a ∈ as, law.Governs (f a)) :
    law.Governs (as.forM f) := by
  induction as with
  | nil => exact .pure ()
  | cons a rest ih =>
    refine (hf a List.mem_cons_self).bind fun _ => ?_
    exact ih fun x hx => hf x (List.mem_cons_of_mem a hx)

theorem Governs.mapM (as : List α) {f : α → Run σ β} (hf : ∀ a ∈ as, law.Governs (f a)) :
    law.Governs (as.mapM f) := by
  induction as with
  | nil => exact .pure []
  | cons a rest ih =>
    rw [List.mapM_cons]
    refine (hf a List.mem_cons_self).bind fun b => ?_
    exact (ih fun x hx => hf x (List.mem_cons_of_mem a hx)).bind fun bs => .pure (b :: bs)

theorem Governs.foldM {flow : Flow (Run σ) α} (hflow : flow.Idle) {f : β → α → Run σ β}
    (hf : ∀ b a, law.Governs (f b a)) (b : β) : law.Governs (flow.foldM f b) := by
  induction flow generalizing b with
  | done => exact .pure b
  | next a rest ih => exact (hf b a).bind fun b' => ih hflow b'
  | ask question rest ih => exact (of_idle hflow.1).bind fun r => ih r (hflow.2 r) b

theorem Governs.rethrow {m : Run σ α} (hm : law.Governs m) {talk : Error → Run σ Unit}
    (htalk : ∀ e, (talk e).Idle) : law.Governs (tryCatch m fun e => do talk e; throw e) := by
  intro w
  refine (hm w).tryCatch (fun ds a w' h => h) fun ds e w' h => ?_
  exact (htalk e).bind_meets fun _ w'' _ => .throw (by rw [List.append_nil]; exact h)

section

variable {s : Setting σ}

theorem Governs.call {m : Run σ α} {request : Request}
    {verdict : Except IoError Status → Except Error α} (hm : Run.IsCall s m request verdict)
    (h : ∀ answer, law.holds [.called request answer] (stop (verdict answer))) : law.Governs m := by
  intro w
  refine (hm w _ rfl).mono fun ds r w' hmeets => ?_
  obtain ⟨rfl, rfl, -⟩ := hmeets
  exact h _

theorem Governs.capture {file : Path}
    (h : ∀ content, law.holds [.captured file content] (stop (content.mapError (.io file)))) :
    law.Governs (Run.capture s file) := by
  intro w
  refine (Run.capture_meets s file w).mono fun ds r w' hmeets => ?_
  obtain ⟨rfl, rfl, -⟩ := hmeets
  exact h _

/-- How a law treats text for the report: pieces that are taken, and one that is refused. -/
structure Writes (law : Law) : Prop where
  wrote (pieces : List String) : law.holds (pieces.map .wrote) none
  refused (pieces : List String) (part : String) (cause : IoError) :
    law.holds (pieces.map .wrote ++ [.refused part cause]) (some (.output cause))

theorem Governs.line (writes : law.Writes) (pieces : List String) :
    law.Governs (Run.writeLine s pieces) := by
  intro w
  refine (Run.writeLine_meets s pieces w).mono fun ds r w' hmeets => ?_
  obtain ⟨-, ⟨rfl, rfl, -⟩ | ⟨taken, piece, left, refusal, -, -, rfl, rfl⟩⟩ := hmeets
  · exact writes.wrote _
  · exact writes.refused taken refusal.part refusal.cause

theorem Governs.search {root : Path} {name : String}
    (h : ∀ found, law.holds [.searched name found] (stop (match found with
      | [] => .error (.configuration (.notFound name))
      | [path] => .ok path
      | _ => .error (.configuration (.multiple name found)) : Except Error Path))) :
    law.Governs (Linting.findUnique s root name) := by
  intro w
  refine (Linting.findUnique_meets s root name w).mono fun ds r w' hmeets => ?_
  obtain ⟨-, found, -, rfl, rfl⟩ := hmeets
  exact h found

theorem Governs.check (writes : law.Writes) {tool : Tool} {policy : FailurePolicy} {r : LintReport}
    {file : Path}
    (h : ∀ pieces path answer,
      law.holds (List.map .wrote pieces ++ [.called (tool.workRequest file) answer])
        (stop (Linting.verdict tool policy r path answer))) :
    law.Governs (Linting.checkOne s tool policy r file) := by
  intro w
  refine (Linting.checkOne_meets s tool policy r file _ w _ rfl rfl).mono fun ds out w' hmeets => ?_
  obtain ⟨rfl, rfl, -⟩ | ⟨-, taken, piece, left, refusal, -, -, rfl, rfl⟩ := hmeets
  · exact h _ _ _
  · exact writes.refused taken refusal.part refusal.cause

end

/-- A batch of checks is governed if each check is, and if it may fail at its end. -/
theorem Governs.checkBatch {s : Setting σ} {tool : Tool} {policy : FailurePolicy}
    {files : Flow (Run σ) Path} (hfiles : files.Idle)
    (hcheck : ∀ r file, law.Governs (Linting.checkOne s tool policy r file))
    (hend : ∀ failed, law.holds [] (some (.checksFailed failed))) :
    law.Governs (Linting.checkBatch s tool policy files) := by
  refine (foldM hfiles hcheck {}).bind fun r => ?_
  split
  · exact .pure r
  · exact fun w => .throw (hend r.failed)

/-- The law holds of the operations with which files are worked on, if the tools are employed. -/
structure Works (law : Law) (s : Setting σ) (employed : Tool → Prop) : Prop where
  work (t : Tool) (target : Path) : employed t → law.Governs (t.invokeChecked s target)
  capture (file : Path) : law.Governs (Run.capture s file)
  line (pieces : List String) : law.Governs (Run.writeLine s pieces)
  batch (t : Tool) (policy : FailurePolicy) (files : Flow (Run σ) Path) :
    employed t → files.Idle → law.Governs (Linting.checkBatch s t policy files)

namespace Works

variable {s : Setting σ} {employed : Tool → Prop} (works : law.Works s employed)

include works

theorem processOne {passes : List Tool} (hpasses : ∀ pass ∈ passes, employed pass) (file : Path) :
    law.Governs (Formatting.processOne s passes file) := by
  refine (works.capture file).bind fun before => ?_
  have hwork : ∀ pass ∈ passes, law.Governs (pass.invokeChecked s file) := fun pass hpass =>
    works.work pass file (hpasses pass hpass)
  refine (Governs.forM passes hwork).bind fun _ => ?_
  refine (works.capture file).bind fun after => ?_
  exact .of_idle ((Run.idle_log _ _ _).bind fun _ => (Run.idle_files s).bind fun _ => .pure _)

theorem record (r : FormatReport) (o : FileOutcome) : law.Governs (Formatting.record s r o) := by
  unfold Formatting.record
  split
  · exact (works.line _).bind fun _ => .pure _
  · exact .pure _

theorem report {passes : List Tool} (hpasses : ∀ pass ∈ passes, employed pass)
    {files : Flow (Run σ) Path} (hfiles : files.Idle) :
    law.Governs (Formatting.report s (files.mapM (Formatting.processOne s passes))) := by
  unfold Formatting.report
  rw [Flow.foldM_mapM]
  exact .foldM hfiles
    (fun r file => (works.processOne hpasses file).bind fun o => works.record r o) {}

end Works

/-- The law holds of the operations from which steps are made, whatever tools are employed. -/
structure Basic (law : Law) (s : Setting σ) : Prop extends law.Works s fun _ => True where
  probe (t : Tool) : law.Governs (t.ensureAvailable s)
  search (root : Path) : law.Governs (Linting.findUnique s root Linting.compileCommands)

namespace Basic

variable {s : Setting σ} (basic : law.Basic s)

include basic

theorem format (step : FormatStep) : law.Governs (step.run s) := by
  refine (Governs.forM _ fun tool _ => basic.probe tool).bind fun _ => ?_
  refine (Governs.of_idle (Run.idle_log _ _ _)).bind fun _ => ?_
  refine (basic.report ?_ (Walk.targets_idle s _ _)).bind fun report => .pure _
  exact fun _ _ => trivial

theorem lint (step : LintStep) : law.Governs (step.run s) := by
  refine (basic.probe _).bind fun _ => (basic.search _).bind fun database => ?_
  refine (Governs.of_idle (Run.idle_log _ _ _)).bind fun _ => ?_
  exact (basic.batch _ _ _ trivial (Walk.targets_idle s _ _)).bind fun _ => .pure _

theorem analyze (step : AnalyzeStep) : law.Governs (step.run s) :=
  ((basic.probe _).bind fun _ => basic.work _ _ trivial).bind fun _ => .pure _

theorem step (step : Step) : law.Governs (step.run s) := by
  cases step with
  | format step => exact basic.format step
  | lint step => exact basic.lint step
  | analyze step => exact basic.analyze step

/-- A law that holds of the operations holds of every chain of steps. -/
theorem runSteps (steps : List Step) : law.Governs (Chain.runSteps s steps) := by
  refine .mapM _ fun task htask => ?_
  obtain ⟨step, -, rfl⟩ := List.mem_map.mp htask
  refine (Governs.of_idle (Run.idle_log _ _ _)).bind fun _ => ?_
  exact (basic.step step).rethrow fun e => Run.idle_log _ _ _

end Basic

end Law

end Groom
