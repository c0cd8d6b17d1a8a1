import Groom.Proofs.Law
import Groom.Proofs.Parts

/-! What each call keeps true, a whole run keeps true. Between two calls a run of the library leaves
the tree and the state of the runner alone, so a property of these and of the calls so far is handed
on from one call to the next. -/
namespace Groom

variable {σ α β : Type}

/-- Each call of the runner preserves a property of the calls so far, of the state of the runner and
of the tree. -/
def Setting.Preserves (s : Setting σ)
    (inv : List (Request × Except IoError Status) → σ → Tree → Prop) : Prop :=
  ∀ request cs state tree, inv cs state tree →
    inv (cs ++ [(request, (s.runner request state tree).answer)])
      (s.runner request state tree).state (s.runner request state tree).tree

namespace Run

variable {s : Setting σ} {inv : List (Request × Except IoError Status) → σ → Tree → Prop}

/-- A run without a call, which leaves the tree and the runner alone. -/
def Quiet (m : Run σ α) : Prop := ∀ w, m.Meets w fun ds _ w' => calls ds = [] ∧ w.Still w'

namespace Quiet

theorem of_idle {m : Run σ α} (hm : m.Idle) : m.Quiet := by
  intro w
  refine (hm w).mono fun ds r w' hmeets => ?_
  obtain ⟨rfl, -, hs⟩ := hmeets
  exact ⟨rfl, hs⟩

theorem throw (e : Error) : (throw e : Run σ α).Quiet := fun w => .throw ⟨rfl, .refl w⟩

theorem capture (s : Setting σ) (file : Path) : (Run.capture s file).Quiet := by
  intro w
  refine (capture_meets s file w).mono fun ds r w' hmeets => ?_
  obtain ⟨rfl, -, hstill⟩ := hmeets
  exact ⟨rfl, hstill⟩

theorem calls_refused (taken : List String) (part : String) (cause : IoError) :
    calls (taken.map Event.wrote ++ [.refused part cause]) = [] := by
  rw [calls_append, calls_map_wrote]
  rfl

theorem line (s : Setting σ) (pieces : List String) : (Run.writeLine s pieces).Quiet := by
  intro w
  refine (writeLine_meets s pieces w).mono fun ds r w' hmeets => ?_
  obtain ⟨hstill, ⟨rfl, -⟩ | ⟨taken, _, _, refusal, -, -, rfl, -⟩⟩ := hmeets
  · exact ⟨calls_map_wrote _, hstill⟩
  · exact ⟨calls_refused taken refusal.part refusal.cause, hstill⟩

theorem search (s : Setting σ) (root : Path) (name : String) :
    (Linting.findUnique s root name).Quiet := by
  intro w
  refine (Linting.findUnique_meets s root name w).mono fun ds r w' hmeets => ?_
  obtain ⟨hstill, found, -, rfl, -⟩ := hmeets
  exact ⟨rfl, hstill⟩

theorem record (s : Setting σ) (r : FormatReport) (o : FileOutcome) :
    (Formatting.record s r o).Quiet := by
  intro w
  unfold Formatting.record
  split
  · exact .map (line s _ w)
  · exact of_idle (.pure _) w

end Quiet

def Keeps (inv : List (Request × Except IoError Status) → σ → Tree → Prop) (m : Run σ α) : Prop :=
  ∀ w cs, inv cs w.runner w.tree → m.Meets w fun ds _ w' => inv (cs ++ calls ds) w'.runner w'.tree

namespace Keeps

/-- A run without a call keeps everything. -/
theorem of_quiet {m : Run σ α} (hm : m.Quiet) : Keeps inv m := by
  intro w cs hinv
  refine (hm w).mono fun ds r w' hmeets => ?_
  obtain ⟨hcalls, htree, hrunner⟩ := hmeets
  rw [hcalls, List.append_nil, htree, hrunner]
  exact hinv

theorem of_idle {m : Run σ α} (hm : m.Idle) : Keeps inv m := of_quiet (.of_idle hm)

theorem pure (a : α) : Keeps inv (pure a : Run σ α) := of_idle (.pure a)

theorem throw (e : Error) : Keeps inv (throw e : Run σ α) := of_quiet (.throw e)

theorem bind {m : Run σ α} {f : α → Run σ β} (hm : Keeps inv m) (hf : ∀ a, Keeps inv (f a)) :
    Keeps inv (m >>= f) := by
  intro w cs hinv
  refine (hm w cs hinv).bind ?_ fun ds e w' h => h
  intro ds a w' h
  refine (hf a w' _ h).mono fun ds' r w'' h' => ?_
  rw [calls_append, ← List.append_assoc]
  exact h'

theorem tryCatch {m : Run σ α} {handle : Error → Run σ α} (hm : Keeps inv m)
    (hhandle : ∀ e, Keeps inv (handle e)) : Keeps inv (tryCatch m handle) := by
  intro w cs hinv
  refine (hm w cs hinv).tryCatch (fun ds a w' h => h) ?_
  intro ds e w' h
  refine (hhandle e w' _ h).mono fun ds' r w'' h' => ?_
  rw [calls_append, ← List.append_assoc]
  exact h'

theorem forM (as : List α) {f : α → Run σ Unit} (hf : ∀ a, Keeps inv (f a)) :
    Keeps inv (as.forM f) := by
  induction as with
  | nil => exact .pure ()
  | cons a rest ih => exact (hf a).bind fun _ => ih

theorem mapM (as : List α) {f : α → Run σ β} (hf : ∀ a ∈ as, Keeps inv (f a)) :
    Keeps inv (as.mapM f) := by
  induction as with
  | nil => exact .pure []
  | cons a rest ih =>
    obtain ⟨hfirst, hrest⟩ := List.forall_mem_cons.mp hf
    rw [List.mapM_cons]
    exact hfirst.bind fun b => (ih hrest).bind fun bs => .pure (b :: bs)

theorem foldM {flow : Flow (Run σ) α} (hflow : flow.Idle) {f : β → α → Run σ β}
    (hf : ∀ b a, Keeps inv (f b a)) (b : β) : Keeps inv (flow.foldM f b) := by
  induction flow generalizing b with
  | done => exact .pure b
  | next a rest ih => exact (hf b a).bind fun b' => ih hflow b'
  | ask question rest ih => exact (of_idle hflow.1).bind fun r => ih r (hflow.2 r) b

theorem of_isCall (hs : s.Preserves inv) {m : Run σ α} {request : Request}
    {verdict : Except IoError Status → Except Error α} (hm : IsCall s m request verdict) :
    Keeps inv m := by
  intro w cs hinv
  refine (hm w _ rfl).mono fun ds r w' hmeets => ?_
  obtain ⟨rfl, -, htree, hrunner⟩ := hmeets
  rw [htree, hrunner]
  exact hs request cs w.runner w.tree hinv

variable (hs : s.Preserves inv)

include hs

theorem probe (t : Tool) : Keeps inv (t.ensureAvailable s) := of_isCall hs (t.isCall_probe s)

theorem work (t : Tool) (target : Path) : Keeps inv (t.invokeChecked s target) :=
  of_isCall hs (t.isCall_work s target)

theorem check (t : Tool) (policy : FailurePolicy) (r : LintReport) (file : Path) :
    Keeps inv (Linting.checkOne s t policy r file) := by
  intro w cs hinv
  refine (Linting.checkOne_meets s t policy r file _ w _ rfl rfl).mono fun ds out w' hmeets => ?_
  obtain ⟨rfl, -, htree, hrunner, -⟩ |
    ⟨⟨htree, hrunner⟩, taken, _, _, refusal, -, -, rfl, -⟩ := hmeets
  · rw [calls_append, calls_map_wrote, htree, hrunner]
    exact hs (t.workRequest file) cs w.runner w.tree hinv
  · rw [Quiet.calls_refused, List.append_nil, htree, hrunner]
    exact hinv

theorem checkBatch (t : Tool) (policy : FailurePolicy) {files : Flow (Run σ) Path}
    (hfiles : files.Idle) : Keeps inv (Linting.checkBatch s t policy files) := by
  refine (foldM hfiles (check hs t policy) {}).bind fun r => ?_
  split
  · exact .pure r
  · exact .throw (.checksFailed r.failed)

theorem processOne (passes : List Tool) (file : Path) :
    Keeps inv (Formatting.processOne s passes file) := by
  refine (of_quiet (.capture s file)).bind fun before => ?_
  refine (forM passes fun pass => work hs pass file).bind fun _ => ?_
  refine (of_quiet (.capture s file)).bind fun after => ?_
  exact of_idle ((idle_log _ _ _).bind fun _ => (idle_files s).bind fun _ => .pure _)

theorem report (passes : List Tool) {files : Flow (Run σ) Path} (hfiles : files.Idle) :
    Keeps inv (Formatting.report s (files.mapM (Formatting.processOne s passes))) := by
  unfold Formatting.report
  rw [Flow.foldM_mapM]
  refine foldM hfiles (fun r file => ?_) _
  exact (processOne hs passes file).bind fun o => of_quiet (.record s r o)

theorem step (step : Step) : Keeps inv (step.run s) := by
  cases step with
  | format step =>
    refine (forM _ fun tool => probe hs tool).bind fun _ => ?_
    refine (of_idle (idle_log _ _ _)).bind fun _ => ?_
    exact (report hs step.passes (Walk.targets_idle s _ _)).bind fun report => .pure _
  | lint step =>
    refine (probe hs step.tool).bind fun _ => (of_quiet (.search s _ _)).bind fun database => ?_
    refine (of_idle (idle_log _ _ _)).bind fun _ => ?_
    exact (checkBatch hs _ _ (Walk.targets_idle s _ _)).bind fun _ => .pure _
  | analyze step =>
    exact ((probe hs step.tool).bind fun _ => work hs step.tool step.root).bind fun _ => .pure _

/-- What each call preserves, a chain of steps keeps. -/
theorem runSteps (steps : List Step) : Keeps inv (Chain.runSteps s steps) := by
  refine mapM _ fun task htask => ?_
  obtain ⟨one, -, rfl⟩ := List.mem_map.mp htask
  refine (of_idle (idle_log _ _ _)).bind fun _ => (step hs one).tryCatch fun e => ?_
  exact (of_idle (idle_log _ _ _)).bind fun _ => .throw e

end Keeps

end Run

end Groom
