import Groom.Chain
import Groom.Proofs.Run

/-! The parts of a chain, one for each step that was started. What happened in a chain is what
happened in its parts, one after another; and a chain that stops has stopped in its last part. -/
namespace Groom

variable {σ α : Type}

/-- The request of a call, with the answer. -/
def Event.call? : Event → Option (Request × Except IoError Status)
  | .called request answer => some (request, answer)
  | _ => none

/-- The calls of the runner among some events. -/
def calls (events : List Event) : List (Request × Except IoError Status) :=
  events.filterMap Event.call?

@[simp] theorem calls_nil : calls [] = [] := rfl

@[simp] theorem calls_append (xs ys : List Event) : calls (xs ++ ys) = calls xs ++ calls ys :=
  List.filterMap_append

@[simp] theorem calls_called (request : Request) (answer : Except IoError Status)
    (events : List Event) :
    calls (.called request answer :: events) = (request, answer) :: calls events := rfl

@[simp] theorem calls_map_wrote (pieces : List String) : calls (pieces.map .wrote) = [] :=
  List.filterMap_eq_nil_iff.mpr fun e he => by
    obtain ⟨piece, -, rfl⟩ := List.mem_map.mp he
    rfl

@[simp] theorem calls_deeds (events : List Event) : calls (deeds events) = calls events := by
  have htalk : ∀ e : Event, e.isTalk = true → e.call? = none := by
    intro e he
    cases e <;> first | rfl | cases he
  exact filterMap_deeds htalk events

theorem mem_calls {call : Request × Except IoError Status} {events : List Event} :
    call ∈ calls events ↔ .called call.1 call.2 ∈ events := by
  constructor
  · intro h
    obtain ⟨e, he, hcall⟩ := List.mem_filterMap.mp h
    cases e <;> cases hcall
    exact he
  · intro h
    exact List.mem_filterMap.mpr ⟨_, h, rfl⟩

namespace Run

/-- What happens in a run: what it adds to the journal. -/
def events (m : Run σ α) (w : World σ) : List Event := (m.after w).journal.drop w.journal.length

theorem Meets.events {m : Run σ α} {w : World σ}
    {post : List Event → Except Error α → World σ → Prop} (h : m.Meets w post) :
    (m.after w).journal = w.journal ++ m.events w ∧
      post (deeds (m.events w)) (m.outcome w) (m.after w) := by
  obtain ⟨events, hj, hpost⟩ := h
  have hevents : m.events w = events := by rw [Run.events, hj, List.drop_left]
  rw [hevents]
  exact ⟨hj, hpost⟩

/-- What is known of a run in two ways is known of the same deeds. -/
theorem Meets.and {m : Run σ α} {w : World σ}
    {post post' : List Event → Except Error α → World σ → Prop} (h : m.Meets w post)
    (h' : m.Meets w post') : m.Meets w fun ds r w' => post ds r w' ∧ post' ds r w' :=
  ⟨m.events w, h.events.1, h.events.2, h'.events.2⟩

end Run

namespace Chain

variable {s : Setting σ}

/-- A part of a chain: the step, what happened in it, and how it ended. -/
structure Part where
  step : Step
  events : List Event
  outcome : Except Error StepReport

/-- The parts of a chain. Those after the first that fails are never started. -/
def parts (s : Setting σ) : List Step → World σ → List Part
  | [], _ => []
  | step :: rest, w =>
    let task := runTask (step.task s)
    ⟨step, task.events w, task.outcome w⟩ :: match task.outcome w with
      | .ok _ => parts s rest (task.after w)
      | .error _ => []

/-- A task does what its step does, if talk makes no difference to it. -/
theorem runTask_meets {step : Step} {w : World σ}
    {post : List Event → Except Error StepReport → World σ → Prop}
    (hstill : ∀ ds r w' w'', w'.Still w'' → post ds r w' → post ds r w'')
    (hstep : ∀ w', w.Still w' → (step.run s).Meets w' post) :
    (runTask (step.task s)).Meets w post := by
  refine Run.log_bind_meets fun w' hs => ?_
  refine (hstep w' hs).tryCatch (fun ds report w'' h => h) fun ds e w'' h => ?_
  refine Run.log_bind_meets fun w''' hs' => .throw ?_
  rw [List.append_nil]
  exact hstill ds _ w'' w''' hs' h

/-- What all runs of a step do, all of its parts do. -/
theorem of_mem_parts {steps : List Step} {w : World σ} {part : Part}
    {post : Step → List Event → Except Error StepReport → Prop}
    (hstep : ∀ (step : Step) (w : World σ), (step.run s).Meets w fun ds r _ => post step ds r)
    (h : part ∈ parts s steps w) : post part.step (deeds part.events) part.outcome := by
  induction steps generalizing w with
  | nil => cases h
  | cons step rest ih =>
    have htask : (runTask (step.task s)).Meets w fun ds r _ => post step ds r :=
      runTask_meets (fun _ _ _ _ _ h => h) fun w' _ => hstep step w'
    obtain h | h := List.mem_cons.mp h
    · subst h
      exact htask.events.2
    · split at h
      · exact ih h
      · cases h

theorem steps_of_parts (steps : List Step) (w : World σ) :
    (parts s steps w).map Part.step <+: steps := by
  induction steps generalizing w with
  | nil => exact List.nil_prefix
  | cons step rest ih =>
    refine List.cons_prefix_cons.mpr ⟨rfl, ?_⟩
    split
    · exact ih _
    · exact List.nil_prefix

theorem mem_of_mem_parts {steps : List Step} {w : World σ} {part : Part}
    (h : part ∈ parts s steps w) : part.step ∈ steps :=
  (steps_of_parts steps w).subset (List.mem_map_of_mem h)

theorem run_cons (task : Task σ) (rest : List (Task σ)) :
    run (task :: rest) = runTask task >>= fun report =>
      run rest >>= fun reports => pure (report :: reports) :=
  List.mapM_cons

theorem outcome_run_cons (task : Task σ) (rest : List (Task σ)) (w : World σ) :
    (run (task :: rest)).outcome w = match (runTask task).outcome w with
      | .ok report => ((run rest).outcome ((runTask task).after w)).map (report :: ·)
      | .error e => .error e := by
  rw [run_cons, Run.outcome_bind]
  cases (runTask task).outcome w with
  | ok report => exact Run.outcome_bind_pure _ (report :: ·) _
  | error e => rfl

theorem after_run_cons (task : Task σ) (rest : List (Task σ)) (w : World σ) :
    (run (task :: rest)).after w = match (runTask task).outcome w with
      | .ok _ => (run rest).after ((runTask task).after w)
      | .error _ => (runTask task).after w := by
  rw [run_cons, Run.after_bind]
  cases (runTask task).outcome w with
  | ok report => exact Run.after_bind_pure _ (report :: ·) _
  | error e => rfl

theorem runSteps_cons (step : Step) (rest : List Step) :
    runSteps s (step :: rest) = runTask (step.task s) >>= fun report =>
      runSteps s rest >>= fun reports => pure (report :: reports) :=
  run_cons (step.task s) (rest.map (Step.task s))

theorem outcome_cons (step : Step) (rest : List Step) (w : World σ) :
    (runSteps s (step :: rest)).outcome w = match (runTask (step.task s)).outcome w with
      | .ok report =>
        ((runSteps s rest).outcome ((runTask (step.task s)).after w)).map (report :: ·)
      | .error e => .error e :=
  outcome_run_cons (step.task s) (rest.map (Step.task s)) w

theorem after_cons (step : Step) (rest : List Step) (w : World σ) :
    (runSteps s (step :: rest)).after w = match (runTask (step.task s)).outcome w with
      | .ok _ => (runSteps s rest).after ((runTask (step.task s)).after w)
      | .error _ => (runTask (step.task s)).after w :=
  after_run_cons (step.task s) (rest.map (Step.task s)) w

/-- What happens in a chain happens in its parts, as long as each step only adds to the journal. -/
theorem journal_eq_parts
    (hstep : ∀ (step : Step) (w : World σ), (step.run s).Meets w fun _ _ _ => True)
    (steps : List Step) (w : World σ) :
    ((runSteps s steps).after w).journal =
      w.journal ++ (parts s steps w).flatMap Part.events := by
  induction steps generalizing w with
  | nil => exact (List.append_nil _).symm
  | cons step rest ih =>
    have htask : (runTask (step.task s)).Meets w fun _ _ _ => True :=
      runTask_meets (fun _ _ _ _ _ h => h) fun w' _ => hstep step w'
    rw [after_cons, parts, List.flatMap_cons, ← List.append_assoc, ← htask.events.1]
    cases (runTask (step.task s)).outcome w with
    | ok report => exact ih _
    | error e => exact (List.append_nil _).symm

/-- A chain that stops has stopped in its last part, and all parts before it succeeded. -/
theorem parts_of_error {steps : List Step} {w : World σ} {e : Error}
    (h : (runSteps s steps).outcome w = .error e) :
    ∃ done part, parts s steps w = done ++ [part] ∧ part.outcome = .error e ∧
      ∀ before ∈ done, ∃ report, before.outcome = .ok report := by
  induction steps generalizing w with
  | nil => cases h
  | cons step rest ih =>
    let events := (runTask (step.task s)).events w
    rw [outcome_cons] at h
    cases hr : (runTask (step.task s)).outcome w with
    | error cause =>
      rw [hr] at h
      cases h
      refine ⟨[], ⟨step, events, .error e⟩, ?_, rfl, nofun⟩
      rw [parts, hr]
      rfl
    | ok report =>
      rw [hr] at h
      cases hrest : (runSteps s rest).outcome ((runTask (step.task s)).after w) with
      | ok reports =>
        rw [hrest] at h
        cases h
      | error cause =>
        rw [hrest] at h
        cases h
        obtain ⟨done, part, hparts, hpart, hdone⟩ := ih hrest
        refine ⟨⟨step, events, .ok report⟩ :: done, part, ?_, hpart, ?_⟩
        · rw [parts, hr, hparts]
          rfl
        · exact List.forall_mem_cons.mpr ⟨⟨report, rfl⟩, hdone⟩

end Chain

end Groom
