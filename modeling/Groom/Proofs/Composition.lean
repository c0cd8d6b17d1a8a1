import Groom.Proofs.Phases

/-! Chains of tasks, put together. The tasks are arbitrary: they may call the runner, write, log and
change the tree, and fail whenever they like. `Ran` says what it means that tasks were run one after
another to a good end, without speaking of the chain that does it. -/
namespace Groom

variable {σ : Type}

namespace Task

/-- The world in which a task begins: it has been announced in the log. -/
def begun (task : Task σ) (w : World σ) : World σ :=
  w.note (.logged ⟨.debug, .chain, s!"Running step '{task.name}'"⟩)

/-- The world in which a task is given up, with the error in the log. -/
def abandoned (task : Task σ) (e : Error) (w : World σ) : World σ :=
  w.note (.logged ⟨.debug, .chain, s!"Step '{task.name}' failed: {e.message}"⟩)

/-- A task that takes back neither a call nor what it wrote. -/
def Adds (task : Task σ) : Prop := ∀ w, w.journal <+: (task.run.after w).journal

end Task

theorem Step.task_adds (s : Setting σ) (step : Step) : (step.task s).Adds := by
  intro w
  obtain ⟨events, hj, -⟩ := step.phased s w
  exact ⟨events, hj.symm⟩

namespace Chain

/-- Tasks that were each run once, in this order and to a good end: from the first world to the last
one, with their reports. -/
inductive Ran : List (Task σ) → World σ → List StepReport → World σ → Prop
  | nil (w : World σ) : Ran [] w [] w
  | cons {task : Task σ} {rest : List (Task σ)} {w w' : World σ} {report : StepReport}
      {reports : List StepReport} (h : task.run.outcome (task.begun w) = .ok report)
      (hrest : Ran rest (task.run.after (task.begun w)) reports w') :
      Ran (task :: rest) w (report :: reports) w'

theorem outcome_runTask (task : Task σ) (w : World σ) :
    (runTask task).outcome w = task.run.outcome (task.begun w) := by
  have htried : (runTask task).outcome w = (tryCatch task.run fun e => do
      Run.log .debug .chain s!"Step '{task.name}' failed: {e.message}"
      throw e).outcome (task.begun w) := Run.outcome_bind ..
  rw [htried, Run.outcome_tryCatch]
  cases task.run.outcome (task.begun w) <;> rfl

theorem after_runTask (task : Task σ) (w : World σ) :
    (runTask task).after w = match task.run.outcome (task.begun w) with
      | .ok _ => task.run.after (task.begun w)
      | .error e => task.abandoned e (task.run.after (task.begun w)) := by
  have htried : (runTask task).after w = (tryCatch task.run fun e => do
      Run.log .debug .chain s!"Step '{task.name}' failed: {e.message}"
      throw e).after (task.begun w) := Run.after_bind ..
  rw [htried, Run.after_tryCatch]
  cases task.run.outcome (task.begun w) <;> rfl

/-- The reports of two chains are put together, unless the first one fails. -/
theorem outcome_append (tasks more : List (Task σ)) (w : World σ) :
    (run (tasks ++ more)).outcome w = match (run tasks).outcome w with
      | .ok reports => ((run more).outcome ((run tasks).after w)).map (reports ++ ·)
      | .error e => .error e := by
  induction tasks generalizing w with
  | nil =>
    have hnone : (run []).outcome w = .ok ([] : List StepReport) := rfl
    rw [hnone]
    show (run more).outcome w = ((run more).outcome w).map ([] ++ ·)
    cases (run more).outcome w <;> rfl
  | cons task rest ih =>
    rw [List.cons_append, outcome_run_cons, outcome_run_cons, after_run_cons]
    cases (runTask task).outcome w with
    | error e => rfl
    | ok report =>
      dsimp only
      rw [ih]
      cases (run rest).outcome ((runTask task).after w) with
      | error e => rfl
      | ok reports =>
        dsimp only [Except.map]
        cases (run more).outcome ((run rest).after ((runTask task).after w)) <;> rfl

/-- The second chain goes on in the world that the first one leaves, or does not begin. -/
theorem after_append (tasks more : List (Task σ)) (w : World σ) :
    (run (tasks ++ more)).after w = match (run tasks).outcome w with
      | .ok _ => (run more).after ((run tasks).after w)
      | .error _ => (run tasks).after w := by
  induction tasks generalizing w with
  | nil => rfl
  | cons task rest ih =>
    rw [List.cons_append, after_run_cons, outcome_run_cons, after_run_cons]
    cases (runTask task).outcome w with
    | error e => rfl
    | ok report =>
      dsimp only
      rw [ih]
      cases (run rest).outcome ((runTask task).after w) <;> rfl

theorem ran_of_ok {tasks : List (Task σ)} {w : World σ} {reports : List StepReport}
    (h : (run tasks).outcome w = .ok reports) : Ran tasks w reports ((run tasks).after w) := by
  induction tasks generalizing w reports with
  | nil =>
    obtain rfl : [] = reports := Except.ok.inj h
    exact .nil w
  | cons task rest ih =>
    rw [outcome_run_cons, outcome_runTask] at h
    cases htask : task.run.outcome (task.begun w) with
    | error e =>
      rw [htask] at h
      cases h
    | ok report =>
      have hleft : (runTask task).after w = task.run.after (task.begun w) := by
        rw [after_runTask, htask]
      have hafter : (run (task :: rest)).after w =
          (run rest).after (task.run.after (task.begun w)) := by
        rw [after_run_cons, outcome_runTask, htask, hleft]
      rw [htask, hleft] at h
      rw [hafter]
      cases hrest : (run rest).outcome (task.run.after (task.begun w)) with
      | error e =>
        rw [hrest] at h
        cases h
      | ok more =>
        rw [hrest] at h
        obtain rfl : report :: more = reports := Except.ok.inj h
        exact .cons htask (ih hrest)

theorem Ran.exactly {tasks : List (Task σ)} {w w' : World σ} {reports : List StepReport}
    (h : Ran tasks w reports w') :
    (run tasks).outcome w = .ok reports ∧ (run tasks).after w = w' := by
  induction h with
  | nil w => exact ⟨rfl, rfl⟩
  | @cons task rest w w' report reports h hrest ih =>
    obtain ⟨hrun, hafter⟩ := ih
    rw [outcome_run_cons, after_run_cons, outcome_runTask, after_runTask, h]
    dsimp only
    rw [hrun]
    exact ⟨rfl, hafter⟩

/-- A chain that fails does so in one task, after those before it were run to a good end. What that
task leaves is what the chain leaves. -/
theorem failing_of_error {tasks : List (Task σ)} {w : World σ} {e : Error}
    (h : (run tasks).outcome w = .error e) :
    ∃ done failing later reports w', tasks = done ++ failing :: later ∧ Ran done w reports w' ∧
      failing.run.outcome (failing.begun w') = .error e ∧
      (run tasks).after w = failing.abandoned e (failing.run.after (failing.begun w')) := by
  induction tasks generalizing w with
  | nil => cases h
  | cons task rest ih =>
    rw [outcome_run_cons, outcome_runTask] at h
    rw [after_run_cons, outcome_runTask, after_runTask]
    cases htask : task.run.outcome (task.begun w) with
    | error cause =>
      rw [htask] at h
      obtain rfl : cause = e := Except.error.inj h
      exact ⟨[], task, rest, [], w, rfl, .nil w, htask, rfl⟩
    | ok report =>
      have hleft : (runTask task).after w = task.run.after (task.begun w) := by
        rw [after_runTask, htask]
      rw [htask, hleft] at h
      dsimp only at h ⊢
      cases hrest : (run rest).outcome (task.run.after (task.begun w)) with
      | ok reports =>
        rw [hrest] at h
        cases h
      | error cause =>
        rw [hrest] at h
        obtain rfl : cause = e := Except.error.inj h
        obtain ⟨done, failing, later, reports, w', rfl, hran, hfails, hafter⟩ := ih hrest
        -- the task that was run comes in front of those that were run before the one that fails
        exact ⟨task :: done, failing, later, report :: reports, w', rfl, .cons htask hran, hfails,
          hafter⟩

theorem Ran.journal {tasks : List (Task σ)} {w w' : World σ} {reports : List StepReport}
    (h : Ran tasks w reports w') (hadds : ∀ task ∈ tasks, task.Adds) :
    w.journal <+: w'.journal := by
  induction h with
  | nil w => exact List.prefix_rfl
  | @cons task rest w w' report reports h hrest ih =>
    obtain ⟨hfirst, hlater⟩ := List.forall_mem_cons.mp hadds
    have hbegun : w.journal <+: (task.begun w).journal := List.prefix_append ..
    exact (hbegun.trans (hfirst _)).trans (ih hlater)

/-- A chain of two lists of tasks is the chain of the first, and then that of the second in the
world that the first one leaves. If the first fails, so does the whole, in the same world and with
the same error: that of a task before which all were run once and to a good end, and after which
none was begun. Tasks that only add to the journal, as all steps do, keep what was called and
written before them. -/
theorem chain_is_sequential (tasks more : List (Task σ)) (w : World σ) :
    let first := run tasks
    let second := run more
    let whole := run (tasks ++ more)
    (∀ reports, first.outcome w = .ok reports →
      whole.outcome w = (second.outcome (first.after w)).map (reports ++ ·) ∧
      whole.after w = second.after (first.after w) ∧
      Ran tasks w reports (first.after w)) ∧
    (∀ e, first.outcome w = .error e →
      whole.outcome w = .error e ∧
      whole.after w = first.after w ∧
      ∃ done failing later reports w', tasks = done ++ failing :: later ∧ Ran done w reports w' ∧
        failing.run.outcome (failing.begun w') = .error e ∧
        first.after w = failing.abandoned e (failing.run.after (failing.begun w')) ∧
        ((∀ task ∈ tasks, task.Adds) →
          w.journal <+: w'.journal ∧ w'.journal <+: (first.after w).journal)) ∧
    ∀ (s : Setting σ) (step : Step), (step.task s).Adds := by
  intro first second whole
  refine ⟨?_, ?_, Step.task_adds⟩
  · intro reports hfirst
    have houtcome : whole.outcome w = _ := outcome_append tasks more w
    have hafter : whole.after w = _ := after_append tasks more w
    rw [hfirst] at houtcome hafter
    exact ⟨houtcome, hafter, ran_of_ok hfirst⟩
  · intro e hfirst
    have houtcome : whole.outcome w = _ := outcome_append tasks more w
    have hafter : whole.after w = _ := after_append tasks more w
    rw [hfirst] at houtcome hafter
    obtain ⟨done, failing, later, reports, w', htasks, hran, hfails, hleft⟩ :=
      failing_of_error hfirst
    refine ⟨houtcome, hafter, done, failing, later, reports, w', htasks, hran, hfails, hleft, ?_⟩
    intro hadds
    have hdone : ∀ task ∈ done, task.Adds := by
      intro task htask
      exact hadds task (htasks ▸ List.mem_append_left _ htask)
    have hfailing : failing.Adds := by
      apply hadds
      rw [htasks]
      exact List.mem_append_right done List.mem_cons_self
    refine ⟨hran.journal hdone, ?_⟩
    -- both records stand at the end of what was there before them
    have hbegun : w'.journal <+: (failing.begun w').journal := List.prefix_append ..
    have hworked := hbegun.trans (hfailing (failing.begun w'))
    have habandoned (w : World σ) : w.journal <+: (failing.abandoned e w).journal :=
      List.prefix_append ..
    rw [show first.after w = _ from hleft]
    exact hworked.trans (habandoned _)

end Chain

end Groom
