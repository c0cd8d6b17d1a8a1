import Mathlib.Data.List.Forall2
import Groom.Proofs.Law

/-! A chain of steps succeeds exactly if everything went well: no failure is swallowed, and none is
invented. -/
namespace Groom

variable {σ : Type}

/-- Whether an event is a success: a call that ended in success, a file that could be read, a piece
of text that was taken, a search that found the one compilation database. -/
def Event.wentWell : Event → Bool
  | .called _ (.ok .success) | .captured _ (.ok _) => true
  | .called .. | .captured .. | .refused .. => false
  | .shown _ | .wrote _ | .logged _ => true
  | .searched name candidates => name = Linting.compileCommands && candidates.length = 1

theorem Event.wentWell_of_isTalk {e : Event} (h : e.isTalk = true) : e.wentWell = true := by
  cases e <;> first | rfl | cases h

theorem deeds_wentWell_iff (events : List Event) :
    (∀ e ∈ deeds events, e.wentWell = true) ↔ ∀ e ∈ events, e.wentWell = true := by
  refine ⟨fun h e he => ?_, fun h e he => h e (mem_deeds.mp he).1⟩
  cases ht : e.isTalk with
  | true => exact e.wentWell_of_isTalk ht
  | false => exact h e (mem_deeds.mpr ⟨he, ht⟩)

namespace Law

/-- What is done ends well exactly if all of it went well. -/
def candid : Law where
  holds ds stop := stop = none ↔ ∀ e ∈ ds, e.wentWell = true
  nothing := by simp
  append := by
    intro ds ds' stop h h'
    rw [h', List.forall_mem_append]
    exact ⟨fun hd => ⟨h.mp rfl, hd⟩, fun hd => hd.2⟩

theorem candid_probe (s : Setting σ) (t : Tool) : candid.Governs (t.ensureAvailable s) := by
  refine .call (t.isCall_probe s) fun answer => ?_
  rcases answer with cause | _ | code | _ <;> simp [candid, Tool.probeVerdict, Event.wentWell]

theorem candid_work (s : Setting σ) (t : Tool) (target : Path) :
    candid.Governs (t.invokeChecked s target) := by
  refine .call (t.isCall_work s target) fun answer => ?_
  rcases answer with cause | _ | code | _ <;> simp [candid, Tool.workVerdict, Event.wentWell]

theorem candid_capture (s : Setting σ) (file : Path) : candid.Governs (Run.capture s file) := by
  refine .capture fun content => ?_
  cases content <;> simp [candid, Event.wentWell]

theorem not_wentWell_of_refused (pieces : List String) (part : String) (cause : IoError) :
    ¬∀ e ∈ pieces.map .wrote ++ [.refused part cause], Event.wentWell e = true := by
  intro h
  have hbad := h (.refused part cause) (by simp)
  cases hbad

theorem wentWell_of_wrote (pieces : List String) :
    ∀ e ∈ pieces.map .wrote, Event.wentWell e = true := by
  intro e he
  obtain ⟨piece, -, rfl⟩ := List.mem_map.mp he
  rfl

theorem candid_writes : candid.Writes where
  wrote pieces := iff_of_true rfl (wentWell_of_wrote pieces)
  refused pieces part cause := iff_of_false (by simp) (not_wentWell_of_refused pieces part cause)

theorem candid_search (s : Setting σ) (root : Path) :
    candid.Governs (Linting.findUnique s root Linting.compileCommands) := by
  refine .search fun found => ?_
  rcases found with _ | ⟨path, _ | ⟨path', rest⟩⟩ <;> simp [candid, Event.wentWell]

theorem called_wentWell_iff (request : Request) (answer : Except IoError Status) :
    Event.wentWell (.called request answer) = true ↔ answer = .ok .success := by
  rcases answer with cause | _ | code | _ <;> simp [Event.wentWell]

/-- A verdict that lets a batch go on keeps the list of failures empty exactly after a success. -/
theorem verdict_failed (tool : Tool) (policy : FailurePolicy) (r : LintReport) (path : Path)
    (answer : Except IoError Status) (ds : List Event) (w : World σ) :
    Run.Ends (fun r' _ _ => r'.failed = [] ↔ r.failed = [] ∧ answer = .ok .success)
      (fun _ _ _ => answer ≠ .ok .success) ds (Linting.verdict tool policy r path answer) w := by
  rcases answer with cause | _ | code | _ <;> cases policy <;>
    simp [Linting.verdict, Linting.conclusion, Run.Ends]

/-- So the check of one file keeps that list empty exactly if all of it went well. -/
theorem candid_check (s : Setting σ) (tool : Tool) (policy : FailurePolicy) (r : LintReport)
    (file : Path) (w : World σ) :
    (Linting.checkOne s tool policy r file).Meets w fun ds out w' =>
      Run.Ends (fun r' ds _ => r'.failed = [] ↔ r.failed = [] ∧ ∀ e ∈ ds, e.wentWell = true)
        (fun _ ds _ => ¬∀ e ∈ ds, e.wentWell = true) ds out w' := by
  obtain ⟨path, hpath⟩ : ∃ path, (FileSystem.mk w.tree s.cwd).absolute file = path := ⟨_, rfl⟩
  obtain ⟨reply, hreply⟩ : ∃ reply, s.runner (tool.workRequest file) w.runner w.tree = reply :=
    ⟨_, rfl⟩
  refine (Linting.checkOne_meets s tool policy r file path w reply hpath hreply).mono ?_
  intro ds out w' hmeets
  rcases hmeets with ⟨hds, rfl, -⟩ | ⟨-, taken, piece, left, refusal, -, -, rfl, rfl⟩
  · have hall : (∀ e ∈ ds, e.wentWell = true) ↔ reply.answer = .ok .success := by
      rw [hds, List.forall_mem_append, List.forall_mem_singleton, called_wentWell_iff]
      exact and_iff_right (wentWell_of_wrote _)
    have hverdict := verdict_failed tool policy r path reply.answer ds w'
    cases hout : Linting.verdict tool policy r path reply.answer with
    | ok r' =>
      rw [hout] at hverdict
      exact hverdict.trans (and_congr_right' hall.symm)
    | error e =>
      rw [hout] at hverdict
      exact mt hall.mp hverdict
  · exact not_wentWell_of_refused taken refusal.part refusal.cause

theorem candid_batch (s : Setting σ) (tool : Tool) (policy : FailurePolicy)
    (files : Flow (Run σ) Path) (hfiles : files.Idle) :
    candid.Governs (Linting.checkBatch s tool policy files) := by
  -- while the batch goes on, its list of failures tells whether all went well so far
  let inv : LintReport → List Event → World σ → Prop := fun r ds _ =>
    r.failed = [] ↔ ∀ e ∈ ds, e.wentWell = true
  let failed : Error → List Event → World σ → Prop := fun _ ds _ =>
    ¬∀ e ∈ ds, e.wentWell = true
  have hstep (r : LintReport) (file : Path) (ds : List Event) (w : World σ) (h : inv r ds w) :
      (Linting.checkOne s tool policy r file).Meets w fun ds' out w' =>
        Run.Ends inv failed (ds ++ ds') out w' := by
    refine (candid_check s tool policy r file w).mono fun ds' out w' hcheck => ?_
    have hsplit : (∀ e ∈ ds ++ ds', e.wentWell = true) ↔
        r.failed = [] ∧ ∀ e ∈ ds', e.wentWell = true := by
      rw [List.forall_mem_append]
      exact and_congr_left' h.symm
    cases out with
    | ok r' => exact hcheck.trans hsplit.symm
    | error e => exact fun hall => hcheck (hsplit.mp hall).2
  intro w
  have hstart : inv {} [] w := by simp [inv]
  refine (hfiles.foldM_meets _ inv failed (fun _ _ _ _ _ h => h) hstep {} [] w hstart).bind ?_ ?_
  · intro ds r w' hr
    have hall : r.failed = [] ↔ ∀ e ∈ ds, e.wentWell = true := hr
    -- a batch that went through fails only now, if something failed on the way
    by_cases hfailed : r.failed = []
    · rw [if_pos hfailed]
      exact .pure (iff_of_true rfl (by rw [List.append_nil]; exact hall.mp hfailed))
    · rw [if_neg hfailed]
      exact .throw (iff_of_false (by simp) (by rw [List.append_nil]; exact mt hall.mpr hfailed))
  · intro ds e w' he
    exact iff_of_false (by simp) he

theorem candid_basic (s : Setting σ) : candid.Basic s where
  probe := candid_probe s
  work t target _ := candid_work s t target
  capture := candid_capture s
  line := .line candid_writes
  search := candid_search s
  batch t policy files _ := candid_batch s t policy files

end Law

/-- Whether a report is of the kind that a step makes, with no failure in it. -/
def StepReport.answers : StepReport → Step → Prop
  | .formatted _, .format _ => True
  | .linted report, .lint _ => report.failed = []
  | .analyzed, .analyze _ => True
  | _, _ => False

/-- A step that succeeds makes a report of its own kind, and a report of checks holds no failure. -/
theorem Step.report_answers {s : Setting σ} {step : Step} {w : World σ} {report : StepReport}
    (h : (step.run s).outcome w = .ok report) : report.answers step := by
  cases step with
  | format step =>
    obtain ⟨_, -, h⟩ := Run.outcome_bind_eq_ok.mp h
    obtain ⟨_, -, h⟩ := Run.outcome_bind_eq_ok.mp h
    obtain ⟨_, -, h⟩ := Run.outcome_bind_eq_ok.mp h
    cases h
    trivial
  | analyze step =>
    obtain ⟨_, -, h⟩ := Run.outcome_bind_eq_ok.mp h
    cases h
    trivial
  | lint step =>
    obtain ⟨_, -, h⟩ := Run.outcome_bind_eq_ok.mp h
    obtain ⟨_, -, h⟩ := Run.outcome_bind_eq_ok.mp h
    obtain ⟨_, -, h⟩ := Run.outcome_bind_eq_ok.mp h
    obtain ⟨lint, hlint, h⟩ := Run.outcome_bind_eq_ok.mp h
    cases h
    obtain ⟨r, -, hr⟩ := Run.outcome_bind_eq_ok.mp hlint
    by_cases hf : r.failed = []
    · rw [if_pos hf] at hr
      cases hr
      exact hf
    · rw [if_neg hf] at hr
      cases hr

theorem Chain.reports_answer {s : Setting σ} {steps : List Step} {w : World σ}
    {reports : List StepReport} (h : (Chain.runSteps s steps).outcome w = .ok reports) :
    List.Forall₂ StepReport.answers reports steps := by
  unfold Chain.runSteps Chain.run at h
  induction steps generalizing w reports with
  | nil =>
    cases h
    exact .nil
  | cons step rest ih =>
    rw [List.map_cons, List.mapM_cons] at h
    obtain ⟨report, hreport, h⟩ := Run.outcome_bind_eq_ok.mp h
    obtain ⟨more, hmore, h⟩ := Run.outcome_bind_eq_ok.mp h
    cases h
    refine .cons ?_ (ih hmore)
    obtain ⟨_, -, hrun⟩ := Run.outcome_bind_eq_ok.mp hreport
    rw [Run.outcome_tryCatch] at hrun
    cases hstep : (step.run s).outcome _ with
    | ok given =>
      rw [Step.task, hstep] at hrun
      cases hrun
      exact Step.report_answers hstep
    | error e =>
      rw [Step.task, hstep] at hrun
      obtain ⟨_, -, hthrow⟩ := Run.outcome_bind_eq_ok.mp hrun
      cases hthrow

/-- A chain of steps succeeds if and only if all that it did went well: every call succeeded, every
captured file could be read, the report took every piece of text, and every search found the one
compilation database. A chain that succeeds makes one report for each step, in their order and of
their kind, and none with a failure in it. -/
theorem chain_succeeds_iff_all_went_well (s : Setting σ) (steps : List Step) (w : World σ) :
    ∃ events, ((Chain.runSteps s steps).after w).journal = w.journal ++ events ∧
      ((∃ reports, (Chain.runSteps s steps).outcome w = .ok reports) ↔
        ∀ e ∈ events, e.wentWell = true) ∧
      ∀ reports, (Chain.runSteps s steps).outcome w = .ok reports →
        List.Forall₂ StepReport.answers reports steps := by
  obtain ⟨events, hj, hall⟩ := (Law.candid_basic s).runSteps steps w
  refine ⟨events, hj, ?_, fun reports h => Chain.reports_answer h⟩
  rw [← deeds_wentWell_iff, ← Run.stop_eq_none_iff]
  exact hall

end Groom
