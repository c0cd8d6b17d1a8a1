import Groom.Proofs.Law

/-! An interrupt ends a run: the call that brings it is the last thing done, and nothing but an
interrupt makes a run end as interrupted. -/
namespace Groom

variable {σ α : Type}

def Event.isInterrupt : Event → Bool
  | .called _ (.ok .interrupted) => true
  | _ => false

theorem Event.eq_called_of_isInterrupt {e : Event} (h : e.isInterrupt = true) :
    ∃ request, e = .called request (.ok .interrupted) := by
  rcases e with ⟨request, cause | _ | code | _⟩ | _ | _ | _ | _ | _ | _ <;> try cases h
  exact ⟨request, rfl⟩

namespace Law

/-- Either the last deed is an interrupt, the only one, and the run ends as interrupted; or there is
no interrupt, and the run ends in another way. -/
def prompt : Law where
  holds ds stop :=
    (stop = some .interrupted ∧ ∃ before last, ds = before ++ [last] ∧ last.isInterrupt = true ∧
      ∀ e ∈ before, e.isInterrupt = false) ∨
    (stop ≠ some .interrupted ∧ ∀ e ∈ ds, e.isInterrupt = false)
  nothing := .inr ⟨nofun, nofun⟩
  append := by
    rintro ds ds' stop (⟨h, -⟩ | ⟨-, hds⟩) h'
    · cases h
    -- the first part went on, so there is no interrupt in it
    · rcases h' with ⟨hs, before, last, rfl, hlast, hbefore⟩ | ⟨hs, hds'⟩
      · refine .inl ⟨hs, ds ++ before, last, (List.append_assoc ..).symm, hlast, ?_⟩
        exact List.forall_mem_append.mpr ⟨hds, hbefore⟩
      · exact .inr ⟨hs, List.forall_mem_append.mpr ⟨hds, hds'⟩⟩

theorem prompt_of_no_interrupt {ds : List Event} {stop : Option Error}
    (hs : stop ≠ some .interrupted) (hds : ∀ e ∈ ds, e.isInterrupt = false) :
    prompt.holds ds stop :=
  .inr ⟨hs, hds⟩

/-- One call after deeds without an interrupt, where the run is interrupted just if the call is. -/
theorem prompt_of_call (before : List Event) {request : Request} {answer : Except IoError Status}
    {stop : Option Error} (hbefore : ∀ e ∈ before, e.isInterrupt = false)
    (h : stop = some .interrupted ↔ answer = .ok .interrupted) :
    prompt.holds (before ++ [.called request answer]) stop := by
  by_cases ha : answer = .ok .interrupted
  · subst ha
    exact .inl ⟨h.mpr rfl, before, _, rfl, rfl, hbefore⟩
  · refine prompt_of_no_interrupt (mt h.mp ha) (List.forall_mem_append.mpr ⟨hbefore, ?_⟩)
    rw [List.forall_mem_singleton]
    rcases answer with cause | _ | code | _ <;> first | rfl | exact absurd rfl ha

theorem no_interrupt_of_wrote (pieces : List String) :
    ∀ e ∈ pieces.map Event.wrote, e.isInterrupt = false := by
  intro e he
  obtain ⟨piece, -, rfl⟩ := List.mem_map.mp he
  rfl

theorem prompt_writes : prompt.Writes where
  wrote pieces := prompt_of_no_interrupt (by simp) (no_interrupt_of_wrote pieces)
  refused pieces part cause := by
    refine prompt_of_no_interrupt (by simp) (List.forall_mem_append.mpr ?_)
    exact ⟨no_interrupt_of_wrote pieces, by simp [Event.isInterrupt]⟩

theorem prompt_probe (s : Setting σ) (t : Tool) : prompt.Governs (t.ensureAvailable s) := by
  refine .call (t.isCall_probe s) fun answer => prompt_of_call [] (by simp) ?_
  rcases answer with cause | _ | code | _ <;> simp [Tool.probeVerdict]

theorem prompt_work (s : Setting σ) (t : Tool) (target : Path) :
    prompt.Governs (t.invokeChecked s target) := by
  refine .call (t.isCall_work s target) fun answer => prompt_of_call [] (by simp) ?_
  rcases answer with cause | _ | code | _ <;> simp [Tool.workVerdict]

theorem prompt_capture (s : Setting σ) (file : Path) : prompt.Governs (Run.capture s file) := by
  refine .capture fun content => prompt_of_no_interrupt ?_ (by simp [Event.isInterrupt])
  cases content <;> simp

theorem prompt_search (s : Setting σ) (root : Path) :
    prompt.Governs (Linting.findUnique s root Linting.compileCommands) := by
  refine .search fun found => prompt_of_no_interrupt ?_ (by simp [Event.isInterrupt])
  rcases found with _ | ⟨path, _ | ⟨path', rest⟩⟩ <;> simp

theorem verdict_interrupted (tool : Tool) (policy : FailurePolicy) (r : LintReport) (path : Path)
    (answer : Except IoError Status) :
    Run.stop (Linting.verdict tool policy r path answer) = some .interrupted ↔
      answer = .ok .interrupted := by
  rcases answer with cause | _ | code | _ <;> cases policy <;>
    simp [Linting.verdict, Linting.conclusion]

theorem prompt_check (s : Setting σ) (tool : Tool) (policy : FailurePolicy) (r : LintReport)
    (file : Path) : prompt.Governs (Linting.checkOne s tool policy r file) :=
  .check prompt_writes fun pieces path answer =>
    prompt_of_call _ (no_interrupt_of_wrote pieces) (verdict_interrupted tool policy r path answer)

theorem prompt_batch (s : Setting σ) (tool : Tool) (policy : FailurePolicy)
    (files : Flow (Run σ) Path) (hfiles : files.Idle) :
    prompt.Governs (Linting.checkBatch s tool policy files) :=
  .checkBatch hfiles (prompt_check s tool policy) fun _ =>
    prompt_of_no_interrupt (by simp) (by simp)

theorem prompt_basic (s : Setting σ) : prompt.Basic s where
  probe := prompt_probe s
  work t target _ := prompt_work s t target
  capture := prompt_capture s
  line := .line prompt_writes
  search := prompt_search s
  batch t policy files _ := prompt_batch s t policy files

end Law

/-- An interrupted call, be it a probe or real work, is the last thing that a chain of steps does:
after it there is no call, nothing is written, and no file is read, and the chain ends as
interrupted, whatever failed before. And a chain ends as interrupted only if its last call was
interrupted. -/
theorem interrupt_ends_chain (s : Setting σ) (steps : List Step) (w : World σ) :
    ∃ events, ((Chain.runSteps s steps).after w).journal = w.journal ++ events ∧
      (∀ before request later, events = before ++ .called request (.ok .interrupted) :: later →
        (∀ e ∈ later, e.isTalk = true) ∧
          (Chain.runSteps s steps).outcome w = .error .interrupted) ∧
      ((Chain.runSteps s steps).outcome w = .error .interrupted →
        ∃ before request later, events = before ++ .called request (.ok .interrupted) :: later ∧
          ∀ e ∈ later, e.isTalk = true) := by
  obtain ⟨events, hj, hlaw⟩ := (Law.prompt_basic s).runSteps steps w
  refine ⟨events, hj, ?_, ?_⟩
  · rintro before request later rfl
    rw [deeds_append, deeds_cons rfl] at hlaw
    rcases hlaw with ⟨hs, ds, last, hds, -, hnone⟩ | ⟨-, hnone⟩
    · refine ⟨?_, Run.stop_eq_some_iff.mp hs⟩
      rw [← deeds_eq_nil_iff]
      rcases List.eq_nil_or_concat (deeds later) with h | ⟨front, d, h⟩
      · exact h
      -- a deed after the call would leave the call among those that are no interrupts
      · rw [h, List.concat_eq_append, ← List.cons_append, ← List.append_assoc] at hds
        have hmem : Event.called request (.ok .interrupted) ∈ ds := by
          rw [← (List.append_inj' hds rfl).1]
          exact List.mem_append_right _ List.mem_cons_self
        cases hnone _ hmem
    · cases hnone _ (List.mem_append_right _ List.mem_cons_self)
  · intro hr
    rcases hlaw with ⟨-, ds, last, hds, hlast, -⟩ | ⟨hs, -⟩
    · obtain ⟨before, later, he, -, hlater⟩ := eq_of_deeds_concat hds
      obtain ⟨request, rfl⟩ := last.eq_called_of_isInterrupt hlast
      exact ⟨before, request, later, he, deeds_eq_nil_iff.mp hlater⟩
    · exact absurd (Run.stop_eq_some_iff.mpr hr) hs

end Groom
