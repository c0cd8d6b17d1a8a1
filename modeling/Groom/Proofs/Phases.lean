import Groom.Builtin
import Groom.Proofs.Law
import Groom.Proofs.Parts

/-! The two phases of a step. First it asks whether its tools are there and, in a step of checks,
searches for the database; only then does it set tools to work on files. Errors that are reported to
the user belong to the first phase, all others to the second, and an interrupt to both. -/
namespace Groom

open Run (stop)

variable {σ α β : Type}

/-- Whether an event belongs to the first phase: a probe of one of these tools, or a search. -/
def Event.Prepares (probes : List Tool) : Event → Prop
  | .called request _ => ∃ t ∈ probes, request = t.probeRequest
  | .searched .. => True
  | _ => False

/-- Whether an event belongs to the second phase: the work of a tool that is employed, a file that
is captured, or text for the report. -/
def Event.Works (employed : Tool → Prop) : Event → Prop
  | .called request _ => ∃ t target, employed t ∧ request = t.workRequest target
  | .captured .. | .wrote _ | .refused .. => True
  | _ => False

namespace Law

variable {s : Setting σ} {employed : Tool → Prop}

/-- Employed tools are set to work, and no error that stops them is reported. -/
def working (employed : Tool → Prop) : Law where
  holds ds stop := (∀ e ∈ ds, e.Works employed) ∧ ∀ e ∈ stop, e.isReported = false
  nothing := ⟨nofun, nofun⟩
  append h h' := ⟨List.forall_mem_append.mpr ⟨h.1, h'.1⟩, h'.2⟩

theorem works_of_wrote (pieces : List String) :
    ∀ e ∈ pieces.map Event.wrote, e.Works employed := by
  intro e he
  obtain ⟨piece, -, rfl⟩ := List.mem_map.mp he
  trivial

theorem working_writes : (working employed).Writes where
  wrote pieces := ⟨works_of_wrote pieces, by simp⟩
  refused pieces part cause := by
    refine ⟨List.forall_mem_append.mpr ⟨works_of_wrote pieces, ?_⟩, by simp [Error.isReported]⟩
    exact List.forall_mem_singleton.mpr trivial

theorem working_work (s : Setting σ) {t : Tool} (ht : employed t) (target : Path) :
    (working employed).Governs (t.invokeChecked s target) := by
  refine .call (t.isCall_work s target) fun answer => ?_
  refine ⟨List.forall_mem_singleton.mpr ⟨t, target, ht, rfl⟩, ?_⟩
  rcases answer with cause | _ | code | _ <;> simp [Tool.workVerdict, Error.isReported]

theorem working_capture (s : Setting σ) (file : Path) :
    (working employed).Governs (Run.capture s file) := by
  refine .capture fun content => ⟨List.forall_mem_singleton.mpr trivial, ?_⟩
  cases content <;> simp [Error.isReported]

theorem working_check (s : Setting σ) {t : Tool} (ht : employed t) (policy : FailurePolicy)
    (r : LintReport) (file : Path) :
    (working employed).Governs (Linting.checkOne s t policy r file) := by
  refine .check working_writes fun pieces path answer => ⟨?_, ?_⟩
  · refine List.forall_mem_append.mpr ⟨works_of_wrote pieces, ?_⟩
    exact List.forall_mem_singleton.mpr ⟨t, file, ht, rfl⟩
  · rcases answer with cause | _ | code | _ <;> cases policy <;>
      simp [Linting.verdict, Linting.conclusion, Error.isReported]

theorem working_works (s : Setting σ) (employed : Tool → Prop) :
    (working employed).Works s employed where
  work _ target ht := working_work s ht target
  capture := working_capture s
  line := .line working_writes
  batch _ policy _ ht hfiles := .checkBatch hfiles (working_check s ht policy) fun _ =>
    ⟨nofun, by simp [Error.isReported]⟩

end Law

theorem Event.Prepares.mono {probes more : List Tool} (hmore : probes ⊆ more) {e : Event}
    (h : e.Prepares probes) : e.Prepares more := by
  cases e with
  | called request answer =>
    obtain ⟨t, ht, hrequest⟩ := h
    exact ⟨t, hmore ht, hrequest⟩
  | searched => trivial
  | shown | wrote | refused | captured | logged => exact h

/-- Tools are asked whether they are there, and if nothing stops the run then all of them are. -/
structure Prepared (probes : List Tool) (ds : List Event) (stop : Option Error) : Prop where
  prepares : ∀ e ∈ ds, e.Prepares probes
  answered : stop = none → ∀ t ∈ probes, .called t.probeRequest (.ok .success) ∈ ds

/-- What a step does is preparation and then work; and it comes to the work only if all its tools
have answered their probes. -/
def Phased (probes : List Tool) (employed : Tool → Prop) (ds : List Event) (stop : Option Error) :
    Prop :=
  ∃ early late, ds = early ++ late ∧
    ((late = [] ∧ ∀ e ∈ early, e.Prepares probes) ∨
      Prepared probes early none ∧ (Law.working employed).holds late stop)

theorem prepared_probe (s : Setting σ) (t : Tool) (w : World σ) :
    (t.ensureAvailable s).Meets w fun ds r _ => Prepared [t] ds (stop r) := by
  refine (t.isCall_probe s w _ rfl).mono fun ds r w' hmeets => ?_
  obtain ⟨rfl, hr, -⟩ := hmeets
  refine ⟨List.forall_mem_singleton.mpr ⟨t, List.mem_cons_self, rfl⟩, fun hstop => ?_⟩
  obtain ⟨_, hok⟩ := Run.stop_eq_none_iff.mp hstop
  rw [Tool.probeVerdict_eq_ok.mp (hr.symm.trans hok)]
  exact List.forall_mem_singleton.mpr List.mem_cons_self

theorem Prepared.append {probes more : List Tool} {ds ds' : List Event} {stop : Option Error}
    (h : Prepared probes ds none) (h' : Prepared more ds' stop) :
    Prepared (probes ++ more) (ds ++ ds') stop where
  prepares := List.forall_mem_append.mpr
    ⟨fun e he => (h.prepares e he).mono (List.subset_append_left probes more),
      fun e he => (h'.prepares e he).mono (List.subset_append_right probes more)⟩
  answered hstop := List.forall_mem_append.mpr
    ⟨fun t ht => List.mem_append_left _ (h.answered rfl t ht),
      fun t ht => List.mem_append_right _ (h'.answered hstop t ht)⟩

/-- All tools are asked, up to the first that is not there. -/
theorem prepared_probes (s : Setting σ) (probes : List Tool) (w : World σ) :
    (probes.forM (·.ensureAvailable s)).Meets w fun ds r _ => Prepared probes ds (stop r) := by
  induction probes generalizing w with
  | nil => exact .pure ⟨nofun, nofun⟩
  | cons t rest ih =>
    rw [Run.forM_cons]
    refine (prepared_probe s t w).bind ?_ ?_
    · intro ds _ w' hfirst
      exact (ih w').mono fun ds' r w'' hrest => hfirst.append hrest
    · intro ds e w' hfirst
      refine ⟨fun e he => (hfirst.prepares e he).mono ?_, nofun⟩
      exact List.cons_subset_cons t (List.nil_subset rest)

/-- Preparation that comes to its end only if all tools are there, and then work. -/
theorem phased_bind {probes : List Tool} {employed : Tool → Prop} {m : Run σ α} {f : α → Run σ β}
    {w : World σ} (hm : m.Meets w fun ds r _ => Prepared probes ds (stop r))
    (hf : ∀ a, (Law.working employed).Governs (f a)) :
    (m >>= f).Meets w fun ds r _ => Phased probes employed ds (stop r) := by
  refine hm.bind ?_ ?_
  · intro ds a w' hprepared
    refine (hf a w').mono fun ds' r w'' hworks => ?_
    exact ⟨ds, ds', rfl, .inr ⟨hprepared, hworks⟩⟩
  · intro ds e w' hprepared
    exact ⟨ds, [], (List.append_nil ds).symm, .inl ⟨rfl, hprepared.prepares⟩⟩

theorem FormatStep.phased (s : Setting σ) (step : FormatStep) (w : World σ) :
    (step.run s).Meets w fun ds r _ => Phased step.probes (· ∈ step.passes) ds (stop r) := by
  refine phased_bind (prepared_probes s step.probes w) fun _ => ?_
  refine (Law.Governs.of_idle (Run.idle_log _ _ _)).bind fun _ => ?_
  have hworks := Law.working_works s (· ∈ step.passes)
  exact (hworks.report (fun _ h => h) (Walk.targets_idle s _ _)).bind fun _ => .pure _

theorem AnalyzeStep.phased (s : Setting σ) (step : AnalyzeStep) (w : World σ) :
    (step.run s).Meets w fun ds r _ => Phased [step.tool] (· = step.tool) ds (stop r) := by
  -- the step is written as a task of its own and a report; the probe is its first part
  have hrun : step.run s = step.tool.ensureAvailable s >>= fun _ =>
      step.tool.invokeChecked s step.root >>= fun _ => pure .analyzed := bind_assoc ..
  rw [hrun]
  refine phased_bind (prepared_probe s step.tool w) fun _ => ?_
  have hworks := Law.working_works s (· = step.tool)
  exact (hworks.work step.tool step.root rfl).bind fun _ => .pure _

/-- The tool of a step of checks, with the arguments for the database wherever it was found. -/
def LintStep.Employs (step : LintStep) (t : Tool) : Prop := ∃ dir, t = step.invocation dir

/-- A step of checks begins with the probe of its tool. If the tool is not there, nothing else is
done; otherwise the database is searched, and files are checked only if it was found. -/
theorem LintStep.course (s : Setting σ) (step : LintStep) (w : World σ) :
    (step.run s).Meets w fun ds r _ =>
      (∃ answer e, answer ≠ .ok .success ∧ step.tool.probeVerdict answer = .error e ∧
        ds = [.called step.tool.probeRequest answer] ∧ r = .error e) ∨
      ∃ found late, ds = .called step.tool.probeRequest (.ok .success) ::
          .searched Linting.compileCommands found :: late ∧
        (late = [] ∨ (Law.working step.Employs).holds late (stop r)) := by
  refine (step.tool.ensureAvailable_meets s w _ rfl).bind ?_ ?_
  · intro ds _ w₁ hmeets
    obtain ⟨rfl, hverdict, -⟩ := hmeets
    rw [Tool.probeVerdict_eq_ok.mp hverdict.symm]
    refine (Linting.findUnique_meets s step.searchRoot Linting.compileCommands w₁).bind ?_ ?_
    · intro ds database w₂ hmeets
      obtain ⟨-, found, -, rfl, -⟩ := hmeets
      let tool : Tool := step.invocation (database.parent?.getD step.searchRoot)
      have hchecks : (Law.working step.Employs).Governs
          (Linting.checkBatch s tool step.policy (Walk.targets s step.sourceDir step.selection) >>=
            fun report => (pure (.linted report) : Run σ StepReport)) := by
        refine Law.Governs.bind ?_ fun report => .pure _
        exact (Law.working_works s _).batch _ _ _ ⟨_, rfl⟩ (Walk.targets_idle s _ _)
      refine Run.log_bind_meets fun w₃ _ => (hchecks w₃).mono fun late r w₄ hlate => ?_
      exact .inr ⟨found, late, rfl, .inr hlate⟩
    · intro ds e w₂ hmeets
      obtain ⟨-, found, -, rfl, -⟩ := hmeets
      exact .inr ⟨found, [], rfl, .inl rfl⟩
  · intro ds e w₁ hmeets
    obtain ⟨rfl, hverdict, -⟩ := hmeets
    refine .inl ⟨_, e, fun hsuccess => ?_, hverdict.symm, rfl, rfl⟩
    rw [Tool.probeVerdict_eq_ok.mpr hsuccess] at hverdict
    cases hverdict

theorem LintStep.phased (s : Setting σ) (step : LintStep) (w : World σ) :
    (step.run s).Meets w fun ds r _ => Phased [step.tool] step.Employs ds (stop r) := by
  refine (step.course s w).mono fun ds r w' hcourse => ?_
  have asked (answer : Except IoError Status) :
      (Event.called step.tool.probeRequest answer).Prepares [step.tool] :=
    ⟨step.tool, List.mem_cons_self, rfl⟩
  obtain ⟨answer, e, -, -, rfl, -⟩ | ⟨found, late, rfl, hlate⟩ := hcourse
  · exact ⟨_, [], rfl, .inl ⟨rfl, List.forall_mem_singleton.mpr (asked answer)⟩⟩
  · have hearly : Prepared [step.tool] [.called step.tool.probeRequest (.ok .success),
        .searched Linting.compileCommands found] none :=
      ⟨by simp [Event.Prepares], fun _ => by simp⟩
    obtain rfl | hworks := hlate
    · exact ⟨_, [], rfl, .inl ⟨rfl, hearly.prepares⟩⟩
    · exact ⟨[_, _], late, rfl, .inr ⟨hearly, hworks⟩⟩

theorem Event.Prepares.output {probes : List Tool} {events : List Event}
    (h : ∀ e ∈ events, e.Prepares probes) :
    ∀ call ∈ calls events, call.1.output = .capture := by
  intro call hcall
  obtain ⟨t, -, hrequest⟩ := h _ (mem_calls.mp hcall)
  rw [hrequest]
  rfl

/-- Where all deeds are preparation, no tool is set to work and nothing is written. -/
theorem quiet_of_prepares {probes : List Tool} {events : List Event}
    (h : ∀ e ∈ deeds events, e.Prepares probes) :
    (∀ call ∈ calls events, call.1.output = .capture) ∧ ∀ e ∈ events, e.piece? = none := by
  constructor
  · rw [← calls_deeds]
    exact Event.Prepares.output h
  · intro e he
    cases ht : e.isTalk with
    | true => cases e <;> first | rfl | cases ht
    | false =>
      have hprepares : e.Prepares probes := h e (mem_deeds.mpr ⟨he, ht⟩)
      cases e <;> first | rfl | exact hprepares.elim

theorem Event.Works.output {employed : Tool → Prop} {events : List Event}
    (h : ∀ e ∈ events, e.Works employed) :
    ∀ call ∈ calls events, call.1.output = .inherit := by
  intro call hcall
  obtain ⟨t, target, -, hrequest⟩ := h _ (mem_calls.mp hcall)
  rw [hrequest]
  rfl

/-- A list that is split at an element which its first part lacks is split in its second part. -/
theorem append_split {early late before later : List α} {a : α} (ha : a ∉ early)
    (h : early ++ late = before ++ a :: later) :
    ∃ more, before = early ++ more ∧ late = more ++ a :: later := by
  obtain ⟨more, hbefore, hlate⟩ | ⟨more, hearly, hrest⟩ := List.append_eq_append_iff.mp h
  · exact ⟨more, hbefore, hlate⟩
  -- if the split came earlier, the element would be in the first part
  · cases more with
    | nil => exact ⟨[], by simpa using hearly.symm, hrest.symm⟩
    | cons b more =>
      obtain ⟨rfl, -⟩ := List.cons_eq_cons.mp hrest
      exact absurd (hearly ▸ List.mem_append_right before List.mem_cons_self) ha

namespace Phased

variable {probes : List Tool} {employed : Tool → Prop} {ds : List Event} {stop : Option Error}

/-- A step that stops with an error that is reported has not come to its work. -/
theorem prepares_or_unreported (h : Phased probes employed ds stop) :
    (∀ e ∈ ds, e.Prepares probes) ∨ ∀ e ∈ stop, e.isReported = false := by
  obtain ⟨early, late, rfl, ⟨rfl, hprepares⟩ | ⟨-, hworks⟩⟩ := h
  · rw [List.append_nil]
    exact .inl hprepares
  · exact .inr hworks.2

/-- Work is done by an employed tool and after all probes were answered, and only work follows. -/
theorem of_work (h : Phased probes employed ds stop) {request : Request}
    {answer : Except IoError Status} {before later : List (Request × Except IoError Status)}
    (hcalls : calls ds = before ++ (request, answer) :: later) (hwork : request.output = .inherit) :
    (∃ t target, employed t ∧ request = t.workRequest target) ∧
      (∀ t ∈ probes, (t.probeRequest, .ok .success) ∈ before) ∧
      ∀ call ∈ later, call.1.output = .inherit := by
  obtain ⟨early, late, rfl, h⟩ := h
  have hprepares : ∀ e ∈ early, e.Prepares probes := by
    obtain ⟨-, hprepares⟩ | ⟨hprepared, -⟩ := h
    · exact hprepares
    · exact hprepared.prepares
  have hnot : (request, answer) ∉ calls early := by
    intro hmem
    cases hwork.symm.trans (Event.Prepares.output hprepares _ hmem)
  rw [calls_append] at hcalls
  obtain ⟨more, rfl, hlate⟩ := append_split hnot hcalls
  obtain ⟨rfl, -⟩ | ⟨hprepared, hworks, -⟩ := h
  · exact absurd hlate (by simp)
  have hcall : (request, answer) ∈ calls late := hlate ▸ List.mem_append_right _ List.mem_cons_self
  refine ⟨hworks _ (mem_calls.mp hcall), fun t ht => ?_, fun call hlater => ?_⟩
  · exact List.mem_append_left more (mem_calls.mpr (hprepared.answered rfl t ht))
  · refine Event.Works.output hworks call ?_
    exact hlate ▸ List.mem_append_right _ (List.mem_cons_of_mem _ hlater)

end Phased

namespace Step

/-- The tools that a step asks for before it sets any to work. -/
def probes : Step → List Tool
  | .format step => step.probes
  | .lint step => [step.tool]
  | .analyze step => [step.tool]

/-- The tools that a step sets to work. -/
def Employs : Step → Tool → Prop
  | .format step => (· ∈ step.passes)
  | .lint step => step.Employs
  | .analyze step => (· = step.tool)

theorem phased (s : Setting σ) (step : Step) (w : World σ) :
    (step.run s).Meets w fun ds r _ => Phased step.probes step.Employs ds (stop r) := by
  cases step with
  | format step => exact step.phased s w
  | lint step => exact step.phased s w
  | analyze step => exact step.phased s w

/-- A step of checks begins with the probe of its tool, and a probe that fails ends it. -/
theorem lint_course (s : Setting σ) (step : Step) (w : World σ) :
    (step.run s).Meets w fun ds r _ => ∀ lint : LintStep, step = .lint lint →
      ∃ answer rest, ds = .called lint.tool.probeRequest answer :: rest ∧
        (answer ≠ .ok .success →
          rest = [] ∧ ∃ e, lint.tool.probeVerdict answer = .error e ∧ r = .error e) := by
  cases step with
  | format step => exact (step.phased s w).mono fun _ _ _ _ => nofun
  | analyze step => exact (step.phased s w).mono fun _ _ _ _ => nofun
  | lint step =>
    refine (step.course s w).mono fun ds r w' hcourse => ?_
    intro lint hlint
    obtain rfl := Step.lint.inj hlint
    obtain ⟨answer, e, -, hverdict, rfl, rfl⟩ | ⟨found, late, rfl, -⟩ := hcourse
    · exact ⟨answer, [], rfl, fun _ => ⟨rfl, e, hverdict, rfl⟩⟩
    · exact ⟨.ok .success, _, rfl, absurd rfl⟩

end Step

namespace Chain

variable {s : Setting σ} {steps : List Step} {w : World σ} {part : Part}

theorem journal_eq (s : Setting σ) (steps : List Step) (w : World σ) :
    ((runSteps s steps).after w).journal = w.journal ++ (parts s steps w).flatMap Part.events :=
  journal_eq_parts (fun step w => (step.phased s w).mono fun _ _ _ _ => trivial) steps w

theorem phased_of_mem (h : part ∈ parts s steps w) :
    Phased part.step.probes part.step.Employs (deeds part.events) (stop part.outcome) :=
  of_mem_parts (fun step w => step.phased s w) h

end Chain

theorem Error.of_not_reported {e : Error} (h : e.isReported = false) :
    (∃ tool status, e = .toolInvocation tool status) ∨ e = .interrupted ∨
      (∃ failed, e = .checksFailed failed) ∨ (∃ cause, e = .output cause) ∨
      ∃ path cause, e = .io path cause := by
  cases e with
  | toolMissing | configuration => cases h
  | toolInvocation | interrupted | checksFailed | output | io => simp

/-- A chain of steps that ends with an error that is reported to the user has ended in its last
part, before the work of that step: only probes were made there, and nothing was written. After a
step has set a tool to work, it stops with other errors only. And a step of checks first asks
whether its tool is there; if it is not, the step ends with that, and no database is searched. -/
theorem reported_error_precedes_work (s : Setting σ) (steps : List Step) (w : World σ) :
    ((Chain.runSteps s steps).after w).journal =
        w.journal ++ (Chain.parts s steps w).flatMap (·.events) ∧
    (Chain.parts s steps w).map (·.step) <+: steps ∧
    (∀ e, (Chain.runSteps s steps).outcome w = .error e →
      ∃ done part, Chain.parts s steps w = done ++ [part] ∧ part.outcome = .error e ∧
        (∀ before ∈ done, ∃ report, before.outcome = .ok report) ∧
        (e.isReported = true →
          (∀ call ∈ calls part.events, call.1.output = .capture) ∧
          ∀ event ∈ part.events, event.piece? = none)) ∧
    (∀ part ∈ Chain.parts s steps w, ∀ e, part.outcome = .error e →
      (∃ call ∈ calls part.events, call.1.output = .inherit) →
        (∃ tool status, e = .toolInvocation tool status) ∨ e = .interrupted ∨
        (∃ failed, e = .checksFailed failed) ∨ (∃ cause, e = .output cause) ∨
        ∃ path cause, e = .io path cause) ∧
    (∀ part ∈ Chain.parts s steps w, ∀ step : LintStep, part.step = .lint step →
      ∃ answer rest, deeds part.events = .called step.tool.probeRequest answer :: rest ∧
        (answer ≠ .ok .success → rest = [] ∧
          ∃ e, step.tool.probeVerdict answer = .error e ∧ part.outcome = .error e)) := by
  refine ⟨Chain.journal_eq s steps w, Chain.steps_of_parts steps w, ?_, ?_, ?_⟩
  · intro e he
    obtain ⟨done, part, hparts, hpart, hdone⟩ := Chain.parts_of_error he
    refine ⟨done, part, hparts, hpart, hdone, fun hreported => ?_⟩
    have hmem : part ∈ Chain.parts s steps w :=
      hparts ▸ List.mem_append_right done List.mem_cons_self
    have hphased := Chain.phased_of_mem hmem
    rw [hpart] at hphased
    obtain hprepares | hunreported := hphased.prepares_or_unreported
    · exact quiet_of_prepares hprepares
    · cases hreported.symm.trans (hunreported e rfl)
  · rintro part hmem e hpart ⟨call, hcall, hwork⟩
    have hphased := Chain.phased_of_mem hmem
    rw [hpart] at hphased
    obtain hprepares | hunreported := hphased.prepares_or_unreported
    · cases hwork.symm.trans ((quiet_of_prepares hprepares).1 call hcall)
    · exact Error.of_not_reported (hunreported e rfl)
  · intro part hmem
    exact Chain.of_mem_parts (fun step w => step.lint_course s w) hmem

namespace Builtin

/-- The built-in steps; the checks of the source files may be given arguments of the user. -/
inductive StepId where
  | formatCpp
  | formatMeson
  | formatPython
  | lintMeson
  | lintCpp (extraArgs : List String)

/-- A built-in step for the layout of a project, with the tools of a registry. -/
def StepId.step (c : ProjectConfig) (r : Registry) : StepId → Step
  | .formatCpp => .format (Builtin.formatCpp c r)
  | .formatMeson => .format (Builtin.formatMeson c r)
  | .formatPython => .format (Builtin.formatPython c r)
  | .lintMeson => .analyze (Builtin.lintMeson c r)
  | .lintCpp extraArgs => .lint (Builtin.lintCpp c r extraArgs)

/-- A built-in step sets no tool of the registry to work but those for which it asks. -/
theorem probed_of_employs {c : ProjectConfig} {r : Registry} {id : StepId} {t : Tool}
    (h : (id.step c r).Employs t) : ∃ toolId template, t = (r.tool toolId).withInvocation template ∧
      ∃ probed ∈ (id.step c r).probes, probed.probeRequest = (r.tool toolId).probeRequest := by
  cases id with
  | formatCpp =>
    obtain rfl := List.mem_singleton.mp h
    exact ⟨.clangFormat, _, rfl, _, List.mem_cons_self, rfl⟩
  | formatMeson =>
    obtain rfl := List.mem_singleton.mp h
    exact ⟨.muonFmt, _, rfl, _, List.mem_cons_self, rfl⟩
  | formatPython =>
    -- the tools are asked in another order than that in which they work on a file
    obtain rfl | h := List.mem_cons.mp h
    · exact ⟨.isort, _, rfl, _, List.mem_cons_of_mem _ List.mem_cons_self, rfl⟩
    · obtain rfl := List.mem_singleton.mp h
      exact ⟨.yapf, _, rfl, _, List.mem_cons_self, rfl⟩
  | lintMeson =>
    obtain rfl := h
    exact ⟨.muonAnalyze, _, rfl, _, List.mem_cons_self, rfl⟩
  | lintCpp extraArgs =>
    obtain ⟨dir, rfl⟩ := h
    exact ⟨.clangTidy, _, rfl, _, List.mem_cons_self, rfl⟩

/-- In every run of a chain of built-in steps, each real invocation of a tool comes after a probe in
the same step, with the same program and the same leading arguments, that was answered with
success; and once a step has set a tool to work, it makes no more probes. -/
theorem probe_precedes_work (s : Setting σ) (c : ProjectConfig) (r : Registry) (ids : List StepId)
    (w : World σ) :
    let steps := ids.map (·.step c r)
    ((Chain.runSteps s steps).after w).journal =
        w.journal ++ (Chain.parts s steps w).flatMap (·.events) ∧
    (Chain.parts s steps w).map (·.step) <+: steps ∧
    ∀ part ∈ Chain.parts s steps w, ∀ before request answer later,
      calls part.events = before ++ (request, answer) :: later → request.output = .inherit →
        (∃ id rest, request = ⟨(r.tool id).program, (r.tool id).base ++ rest, .inherit⟩ ∧
          (⟨(r.tool id).program, (r.tool id).base ++ (r.tool id).probeArgs, .capture⟩,
            .ok .success) ∈ before) ∧
        ∀ call ∈ later, call.1.output = .inherit := by
  intro steps
  refine ⟨Chain.journal_eq s steps w, Chain.steps_of_parts steps w, ?_⟩
  intro part hmem before request answer later hcalls hwork
  rw [← calls_deeds] at hcalls
  obtain ⟨⟨t, target, ht, hrequest⟩, hprobed, hlater⟩ :=
    (Chain.phased_of_mem hmem).of_work hcalls hwork
  refine ⟨?_, hlater⟩
  obtain ⟨id, -, hstep⟩ := List.mem_map.mp (Chain.mem_of_mem_parts hmem)
  rw [← hstep] at ht hprobed
  obtain ⟨toolId, template, rfl, probed, hmemProbed, hprobe⟩ := probed_of_employs ht
  refine ⟨toolId, template.map (Arg.fill target), hrequest, ?_⟩
  have hbefore := hprobed probed hmemProbed
  rw [hprobe] at hbefore
  exact hbefore

end Builtin

end Groom
