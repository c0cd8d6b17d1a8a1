import Groom.Proofs.Operation
import Groom.Proofs.Parts

/-! Formatting under a report that may refuse text. A chain of formatting steps ends because its
report refused a piece, or it does, event by event, what it does with a report that takes
everything. -/
namespace Groom

variable {σ α β : Type}

/-- The same surroundings with a report that takes everything. -/
def Setting.heard (s : Setting σ) : Setting σ := { s with writer := .willing }

theorem Run.files_heard (s : Setting σ) : Run.files s.heard = Run.files s := rfl

/-- The report of a setting refused a piece of text, and that is how a run ended. -/
def Setting.Refused (s : Setting σ) (ending : Except Error α) : Prop :=
  ∃ taken piece refusal, s.writer.refuse taken piece = some refusal ∧
    ending = .error (.output refusal.cause)

/-- A run that is stopped by its report, or does the same as another run. -/
def Run.RefusedOr (s : Setting σ) (m m' : Run σ α) (w : World σ) : Prop :=
  s.Refused (m.outcome w) ∨ m.Alike m' w

namespace Run.RefusedOr

variable {s : Setting σ} {m m' : Run σ α} {g g' : α → Run σ β} {w : World σ}

theorem refl (m : Run σ α) (w : World σ) : RefusedOr s m m w := .inr (.refl m w)

theorem bind (h : RefusedOr s m m' w)
    (hg : ∀ a, m.outcome w = .ok a → RefusedOr s (g a) (g' a) (m.after w)) :
    RefusedOr s (m >>= g) (m' >>= g') w := by
  obtain ⟨taken, piece, refusal, hrefuse, hr⟩ | halike := h
  · refine .inl ⟨taken, piece, refusal, hrefuse, ?_⟩
    rw [outcome_bind, hr]
  · cases hr : m.outcome w with
    | error e =>
      refine .inr (halike.bind fun a ha => ?_)
      cases hr.symm.trans ha
    | ok a =>
      obtain ⟨taken, piece, refusal, hrefuse, hrefused⟩ | halike' := hg a hr
      · refine .inl ⟨taken, piece, refusal, hrefuse, ?_⟩
        rw [outcome_bind, hr]
        exact hrefused
      · refine .inr (halike.bind fun b hb => ?_)
        obtain rfl := Except.ok.inj (hr.symm.trans hb)
        exact halike'

/-- What goes on the same way from every world goes on the same way after a part. -/
theorem andThen (h : RefusedOr s m m' w) (hg : ∀ a w', RefusedOr s (g a) (g' a) w') :
    RefusedOr s (m >>= g) (m' >>= g') w :=
  h.bind fun a _ => hg a _

theorem before (m : Run σ α) (hg : ∀ a w', RefusedOr s (g a) (g' a) w') (w : World σ) :
    RefusedOr s (m >>= g) (m >>= g') w :=
  (refl m w).andThen hg

/-- An error that is only talked about stays what it is. -/
theorem rethrow (h : RefusedOr s m m' w) (level : Log.Level) (topic : Log.Topic)
    (message : Error → String) :
    RefusedOr s (tryCatch m fun e => do Run.log level topic (message e); throw e)
      (tryCatch m' fun e => do Run.log level topic (message e); throw e) w := by
  obtain ⟨taken, piece, refusal, hrefuse, hr⟩ | ⟨hr, hafter⟩ := h
  · refine .inl ⟨taken, piece, refusal, hrefuse, ?_⟩
    rw [outcome_tryCatch, hr]
    rfl
  · refine .inr ⟨?_, ?_⟩
    · rw [outcome_tryCatch, outcome_tryCatch, hr, hafter]
    · rw [after_tryCatch, after_tryCatch, hr, hafter]

theorem piece (s : Setting σ) (piece : String) (w : World σ) :
    RefusedOr s (writePiece s piece) (writePiece s.heard piece) w := by
  -- both writers are asked about the piece in the world that the run is in
  refine bind (refl get w) fun asked hasked => ?_
  obtain rfl : w = asked := Except.ok.inj hasked
  have hheard : s.heard.writer.refuse w.report piece = none := rfl
  rw [hheard]
  cases hrefuse : s.writer.refuse w.report piece with
  | none => exact refl (note (.wrote piece)) _
  | some refusal => exact .inl ⟨w.report, piece, refusal, hrefuse, rfl⟩

theorem line (s : Setting σ) (pieces : List String) (w : World σ) :
    RefusedOr s (writeLine s pieces) (writeLine s.heard pieces) w := by
  unfold writeLine
  generalize (pieces ++ ["\n"]).filter (· ≠ "") = parts
  induction parts generalizing w with
  | nil => exact refl (pure ()) w
  | cons part rest ih => exact (piece s part w).andThen fun _ => ih

end Run.RefusedOr

/-- A consumer of a flow, whose questions are the same whatever the report takes. -/
theorem Flow.foldM_refusedOr {s : Setting σ} {f f' : β → α → Run σ β}
    (hf : ∀ b a w, Run.RefusedOr s (f b a) (f' b a) w) (flow : Flow (Run σ) α) (b : β)
    (w : World σ) : Run.RefusedOr s (flow.foldM f b) (flow.foldM f' b) w := by
  induction flow generalizing b w with
  | done => exact .refl (pure b) w
  | next a rest ih => exact (hf b a w).andThen ih
  | ask question rest ih => exact .before question (fun r => ih r b) w

namespace Walk

/-- A walk does not look at the report. -/
theorem visit_heard (s : Setting σ) (selection : Selection) (depth : Nat) (path : Path)
    (kind : Kind) (rest : Flow (Run σ) Path) :
    visit s.heard selection depth path kind rest = visit s selection depth path kind rest := by
  induction depth generalizing path kind rest with
  | zero => cases kind <;> rfl
  | succ depth ih =>
    cases kind with
    | file | link | device => rfl
    | directory =>
      have hvisit : visit s.heard selection depth = visit s selection depth := by
        funext path kind rest
        exact ih path kind rest
      simp only [visit, hvisit, offer, Run.files_heard]

theorem targets_heard (s : Setting σ) (root : Path) (selection : Selection) :
    targets s.heard root selection = targets s root selection := by
  have hvisit : visit s.heard selection = visit s selection := by
    funext depth path kind rest
    exact visit_heard s selection depth path kind rest
  simp only [targets, hvisit, Run.files_heard]

end Walk

theorem Formatting.record_refusedOr (s : Setting σ) (r : FormatReport) (o : FileOutcome)
    (w : World σ) : Run.RefusedOr s (record s r o) (record s.heard r o) w := by
  unfold record
  split
  · exact (Run.RefusedOr.line s _ w).andThen fun _ => .refl _
  · exact .refl (pure (r.add o)) w

/-- Only for its lines about changed files does a step turn to the report. -/
theorem FormatStep.refusedOr (s : Setting σ) (step : FormatStep) (w : World σ) :
    Run.RefusedOr s (step.run s) (step.run s.heard) w := by
  have hprobes : step.probes.forM (·.ensureAvailable s.heard) =
      step.probes.forM (·.ensureAvailable s) := rfl
  have hprocess : Formatting.processOne s.heard step.passes =
      Formatting.processOne s step.passes := rfl
  -- the probes, the walk and the passes are the same in both settings
  unfold run
  rw [hprobes, hprocess, Walk.targets_heard]
  generalize (Walk.targets s step.root step.selection).mapM
    (Formatting.processOne s step.passes) = outcomes
  have hreport (w : World σ) : Run.RefusedOr s (Formatting.report s outcomes)
      (Formatting.report s.heard outcomes) w :=
    Flow.foldM_refusedOr (Formatting.record_refusedOr s) outcomes {} w
  refine .before _ (fun _ => .before _ fun _ w' => ?_) w
  exact (hreport w').andThen fun _ => .refl _

/-- A chain of formatting steps ends because its report refused text, or does what it does with a
report that takes everything. -/
theorem Chain.formats_refusedOr (s : Setting σ) (steps : List FormatStep) (w : World σ) :
    Run.RefusedOr s (Chain.runSteps s (steps.map .format))
      (Chain.runSteps s.heard (steps.map .format)) w := by
  induction steps generalizing w with
  | nil => exact .refl (pure []) w
  | cons step rest ih =>
    have htask (w : World σ) : Run.RefusedOr s (Chain.runTask (Step.task s (.format step)))
        (Chain.runTask (Step.task s.heard (.format step))) w :=
      .before _ (fun _ w' => (step.refusedOr s w').rethrow _ _ _) w
    rw [List.map_cons, Chain.runSteps_cons, Chain.runSteps_cons]
    exact (htask w).andThen fun report w' => (ih w').andThen fun _ => .refl _

end Groom
