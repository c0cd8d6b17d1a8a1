import Groom.Registry
import Groom.Proofs.Parts
import Groom.Proofs.Replay

/-! Programs under other names. Two runs that differ in the programs of their tools alone, and whose
runners treat each program by its name alike, do the same: what the one asks of a program, the other
asks of the program that stands for it, and everything else is equal. -/
namespace Groom

variable {σ α β : Type}

/-- The request to the program that stands for another. -/
def Request.renamed (f : Path → Path) (request : Request) : Request :=
  { request with program := f request.program }

def Event.renamed (f : Path → Path) : Event → Event
  | .called request answer => .called (request.renamed f) answer
  | e => e

def Tool.renamed (f : Path → Path) (t : Tool) : Tool := t.withProgram (f t.program)

/-- The step with other programs for its tools. -/
def Step.renamed (f : Path → Path) : Step → Step
  | .format step => .format { step with
      probes := step.probes.map (·.renamed f), passes := step.passes.map (·.renamed f) }
  | .lint step => .lint { step with tool := step.tool.renamed f }
  | .analyze step => .analyze { step with tool := step.tool.renamed f }

def Step.tools : Step → List Tool
  | .format step => step.probes ++ step.passes
  | .lint step => [step.tool]
  | .analyze step => [step.tool]

/-- A tool that has its own name as its program, and the name of a built-in tool. -/
def Tool.Plain (t : Tool) : Prop :=
  t.program = .ofString t.name ∧ ∃ id : ToolId, t.name = id.builtin.name

theorem text_renamed (f : Path → Path) (events : List Event) :
    text (events.map (Event.renamed f)) = text events := by
  have hpiece : Event.piece? ∘ Event.renamed f = Event.piece? := by
    funext e
    cases e <;> rfl
  rw [text, text, List.filterMap_map, hpiece]

theorem calls_renamed (f : Path → Path) (events : List Event) :
    calls (events.map (Event.renamed f)) =
      (calls events).map fun call => (call.1.renamed f, call.2) := by
  have hcall : Event.call? ∘ Event.renamed f =
      fun e => e.call?.map fun call => (call.1.renamed f, call.2) := by
    funext e
    cases e <;> rfl
  rw [calls, calls, List.filterMap_map, hcall, List.map_filterMap]

/-- Where an error comes from: the last deed of the run that it stops. -/
def Error.From (ds : List Event) : Error → Prop
  | .toolMissing tool => ∃ args answer,
    ds.getLast? = some (.called ⟨.ofString tool, args, .capture⟩ answer)
  | .toolInvocation tool _ => ∃ args answer,
    ds.getLast? = some (.called ⟨.ofString tool, args, .inherit⟩ answer)
  | .io path cause => ds.getLast? = some (.captured path (.error cause))
  | _ => True

/-- What is told of an error where programs have other names: the same, and it comes from the same,
unless it is that a tool could not be started for its real work. -/
inductive Told (f : Path → Path) (ds : List Event) : Error → Error → Prop where
  | same {e : Error} (h : e.From ds) : Told f ds e e
  | unstarted {tool : String} {args : List Bytes} {cause : IoError}
      (h : ds.getLast? = some (.called ⟨.ofString tool, args, .inherit⟩ (.error cause))) :
      Told f ds (.io (.ofString tool) cause) (.io (f (.ofString tool)) cause)

/-- How two runs end alike. -/
def EndAlike (f : Path → Path) (ds : List Event) : Except Error α → Except Error α → Prop
  | .ok a, .ok a' => a = a'
  | .error e, .error e' => Told f ds e e'
  | _, _ => False

/-- A setting that differs from another in its runner, which treats the program that stands for the
one of a built-in tool as the other runner treats that one; what it shows may differ. -/
structure Setting.Mimics (s' s : Setting σ) (f : Path → Path) : Prop where
  cwd : s'.cwd = s.cwd
  writer : s'.writer = s.writer
  runner : ∀ (id : ToolId) args output state tree,
    let reply := s.runner ⟨.ofString id.builtin.name, args, output⟩ state tree
    let reply' := s'.runner ⟨f (.ofString id.builtin.name), args, output⟩ state tree
    reply'.answer = reply.answer ∧ reply'.state = reply.state ∧ reply'.tree = reply.tree

/-- Worlds that differ at most in their journals, and there not in the report. -/
structure World.Agrees (w w' : World σ) : Prop where
  tree : w'.tree = w.tree
  runner : w'.runner = w.runner
  report : w'.report = w.report

section

variable {f : Path → Path} {ds ds' : List Event} {e e' : Error}

theorem getLast?_append_of_some {d : Event} (h : ds'.getLast? = some d) (ds : List Event) :
    (ds ++ ds').getLast? = some d := by
  rw [List.getLast?_append, h]
  rfl

/-- What was done before makes no difference to where an error comes from. -/
theorem Error.From.after (h : e.From ds') (ds : List Event) : e.From (ds ++ ds') := by
  cases e with
  | toolMissing tool =>
    obtain ⟨args, answer, hlast⟩ := h
    exact ⟨args, answer, getLast?_append_of_some hlast ds⟩
  | toolInvocation tool status =>
    obtain ⟨args, answer, hlast⟩ := h
    exact ⟨args, answer, getLast?_append_of_some hlast ds⟩
  | io path cause => exact getLast?_append_of_some h ds
  | configuration | interrupted | checksFailed | output => trivial

theorem Told.after (h : Told f ds' e e') (ds : List Event) : Told f (ds ++ ds') e e' := by
  cases h with
  | same h => exact .same (h.after ds)
  | unstarted h => exact .unstarted (getLast?_append_of_some h ds)

theorem EndAlike.after {r r' : Except Error α} (h : EndAlike f ds' r r') (ds : List Event) :
    EndAlike f (ds ++ ds') r r' := by
  cases r <;> cases r'
  · exact Told.after h ds
  · cases h
  · cases h
  · exact h

theorem EndAlike.eq_ok {r : Except Error α} {a : α} (h : EndAlike f ds r (.ok a)) : r = .ok a := by
  cases r with
  | ok b => exact congrArg _ h
  | error e => cases h

end

namespace Run

variable {s s' : Setting σ} {f : Path → Path}

/-- What two runs of one part have in common: their deeds, up to the names of programs, how they
end, and the tree and the state of the runner that they leave. -/
structure Matches (f : Path → Path) (ds ds' : List Event) (r r' : Except Error α)
    (w w' : World σ) : Prop where
  events : ds' = ds.map (Event.renamed f)
  plain : ∀ call ∈ calls ds, ∃ id : ToolId, call.1.program = .ofString id.builtin.name
  tree : w'.tree = w.tree
  runner : w'.runner = w.runner
  ends : EndAlike f ds r r'

/-- Runs that leave everything as it is, and make no calls. -/
theorem Matches.of_still {ds ds' : List Event} {r r' : Except Error α} {w w' v v' : World σ}
    (hw : w.Agrees w') (hs : w.Still v) (hs' : w'.Still v') (hd : ds' = ds.map (Event.renamed f))
    (hcalls : calls ds = []) (hends : EndAlike f ds r r') : Matches f ds ds' r r' v v' where
  events := hd
  plain := by
    rw [hcalls]
    exact nofun
  tree := hs'.1.trans (hw.tree.trans hs.1.symm)
  runner := hs'.2.trans (hw.runner.trans hs.2.symm)
  ends := hends

/-- In worlds that agree, two runs do the same, up to the names of programs. -/
def Mirrors (f : Path → Path) (m' m : Run σ α) : Prop :=
  ∀ w' w, w.Agrees w' → m'.Meets w' fun ds' r' v' => m.Meets w fun ds r v =>
    Matches f ds ds' r r' v v'

namespace Mirrors

theorem pure (a : α) : Mirrors f (pure a : Run σ α) (pure a) :=
  fun _ _ hw => .pure (.pure ⟨rfl, nofun, hw.tree, hw.runner, rfl⟩)

/-- An error that does not come from a tool or a file. -/
theorem throw {e : Error} (h : e.From []) : Mirrors f (throw e : Run σ α) (throw e) :=
  fun _ _ hw => .throw (.throw ⟨rfl, nofun, hw.tree, hw.runner, .same h⟩)

theorem bind {m m' : Run σ α} {g g' : α → Run σ β} (hm : Mirrors f m' m)
    (hg : ∀ a, Mirrors f (g' a) (g a)) : Mirrors f (m' >>= g') (m >>= g) := by
  intro w' w hw
  refine (hm w' w hw).report.bind ?_ ?_
  · intro ds' a v' hmeets
    obtain ⟨hmeets, hreport'⟩ := hmeets
    obtain ⟨events, hj, hmatches, hreport⟩ := hmeets.report
    have hr : m.outcome w = .ok a := hmatches.ends.eq_ok
    have hv : (m.after w).Agrees v' := by
      refine ⟨hmatches.tree, hmatches.runner, ?_⟩
      rw [hreport', hreport, hw.report, hmatches.events, text_renamed]
    -- what comes after the first parts is compared in the worlds that those leave
    refine (hg a v' _ hv).mono fun more' r' u' hmore => ?_
    refine Meets.bind_ok hr ⟨events, hj, rfl⟩ (hmore.mono fun more r u hmatches' => ?_)
    refine ⟨?_, ?_, hmatches'.tree, hmatches'.runner, hmatches'.ends.after _⟩
    · rw [hmatches.events, hmatches'.events, List.map_append]
    · rw [calls_append]
      exact List.forall_mem_append.mpr ⟨hmatches.plain, hmatches'.plain⟩
  · intro ds' e' v' hmeets
    obtain ⟨hmeets, -⟩ := hmeets
    refine hmeets.bind ?_ ?_
    · intro ds a v hmatches
      cases hmatches.ends
    · intro ds e v hmatches
      exact ⟨hmatches.events, hmatches.plain, hmatches.tree, hmatches.runner, hmatches.ends⟩

/-- Runs that only look around and talk, and that find out the same. -/
theorem of_idle {m m' : Run σ α} (hm : m.Idle) (hm' : m'.Idle)
    (h : ∀ w w', w.Agrees w' → m.outcome w = m'.outcome w') : Mirrors f m' m := by
  intro w' w hw
  refine (hm' w').exactly.mono fun ds' r' v' hmeets' => (hm w).exactly.mono fun ds r v hmeets => ?_
  obtain ⟨⟨rfl, -, hs'⟩, hr', -⟩ := hmeets'
  obtain ⟨⟨rfl, ⟨a, rfl⟩, hs⟩, hr, -⟩ := hmeets
  obtain rfl : r' = .ok a := hr'.symm.trans ((h w w' hw).symm.trans hr)
  exact .of_still hw hs hs' rfl rfl rfl

theorem of_talk {m m' : Run σ Unit} (hm : m.Idle) (hm' : m'.Idle) : Mirrors f m' m := by
  refine of_idle hm hm' fun w w' _ => ?_
  obtain ⟨⟨_, hr⟩, -⟩ := hm.spec w
  obtain ⟨⟨_, hr'⟩, -⟩ := hm'.spec w'
  rw [hr, hr']

theorem log (level : Log.Level) (topic : Log.Topic) (message message' : String) :
    Mirrors f (log level topic message' : Run σ Unit) (log level topic message) :=
  of_talk (idle_log _ _ _) (idle_log _ _ _)

theorem files (hcwd : s'.cwd = s.cwd) : Mirrors f (files s') (files s) := by
  refine of_idle (idle_files s) (idle_files s') fun w w' hw => ?_
  show Except.ok (FileSystem.mk w.tree s.cwd) = Except.ok (FileSystem.mk w'.tree s'.cwd)
  rw [hw.tree, hcwd]

theorem forM {γ : Type} (as : List γ) (g : γ → α) {h' : α → Run σ Unit} {h : γ → Run σ Unit}
    (hh : ∀ a ∈ as, Mirrors f (h' (g a)) (h a)) : Mirrors f ((as.map g).forM h') (as.forM h) := by
  induction as with
  | nil => exact .pure ()
  | cons a rest ih =>
    obtain ⟨hfirst, hrest⟩ := List.forall_mem_cons.mp hh
    exact hfirst.bind fun _ => ih hrest

/-- One call, with what the answers mean. -/
theorem of_isCall (hs : s'.Mimics s f) {m m' : Run σ α} {request : Request}
    {verdict verdict' : Except IoError Status → Except Error α}
    (hprogram : ∃ id : ToolId, request.program = .ofString id.builtin.name)
    (hm' : IsCall s' m' (request.renamed f) verdict') (hm : IsCall s m request verdict)
    (hverdict : ∀ answer, EndAlike f [.called request answer] (verdict answer) (verdict' answer)) :
    Mirrors f m' m := by
  intro w' w hw
  obtain ⟨id, hid⟩ := hprogram
  refine (hm' w' _ rfl).mono fun ds' r' v' hmeets' => (hm w _ rfl).mono fun ds r v hmeets => ?_
  obtain ⟨hd', hr', htree', hrunner'⟩ := hmeets'
  obtain ⟨hd, hr, htree, hrunner⟩ := hmeets
  have hreply := hs.runner id request.args request.output w.runner w.tree
  rw [← hid] at hreply
  obtain ⟨hanswer, hstate, htrees⟩ := hreply
  -- both runners are called in the same state, on the same tree
  rw [hw.tree, hw.runner] at hd' hr' htree' hrunner'
  subst hd hd' hr hr'
  refine ⟨?_, ?_, ?_, ?_, ?_⟩
  · exact congrArg (fun answer => [Event.called (request.renamed f) answer]) hanswer
  · exact List.forall_mem_singleton.mpr ⟨id, hid⟩
  · exact htree'.trans (htrees.trans htree.symm)
  · exact hrunner'.trans (hstate.trans hrunner.symm)
  · have hend := hverdict (s.runner request w.runner w.tree).answer
    rwa [← hanswer] at hend ⊢

theorem capture (hcwd : s'.cwd = s.cwd) (file : Path) :
    Mirrors f (capture s' file) (capture s file) := by
  intro w' w hw
  refine (capture_meets s' file w').mono fun ds' r' v' hmeets' =>
    (capture_meets s file w).mono fun ds r v hmeets => ?_
  obtain ⟨rfl, rfl, hs'⟩ := hmeets'
  obtain ⟨rfl, rfl, hs⟩ := hmeets
  rw [hw.tree, hcwd]
  refine .of_still hw hs hs' rfl rfl ?_
  cases (FileSystem.mk w.tree s.cwd).read file with
  | ok content => exact rfl
  | error cause => exact .same rfl

theorem piece (hwriter : s'.writer = s.writer) (piece : String) :
    Mirrors f (writePiece s' piece) (writePiece s piece) := by
  intro w' w hw
  refine (writePiece_meets s' piece w').mono fun ds' r' v' hmeets' =>
    (writePiece_meets s piece w).mono fun ds r v hmeets => ?_
  obtain ⟨hs', hpiece'⟩ := hmeets'
  obtain ⟨hs, hpiece⟩ := hmeets
  -- the writer judges the piece by the same text
  rw [hwriter, hw.report] at hpiece'
  cases hrefuse : s.writer.refuse w.report piece with
  | none =>
    rw [hrefuse] at hpiece hpiece'
    obtain ⟨rfl, rfl⟩ := hpiece
    obtain ⟨rfl, rfl⟩ := hpiece'
    exact .of_still hw hs hs' rfl rfl rfl
  | some refusal =>
    rw [hrefuse] at hpiece hpiece'
    obtain ⟨rfl, rfl⟩ := hpiece
    obtain ⟨rfl, rfl⟩ := hpiece'
    exact .of_still hw hs hs' rfl rfl (.same trivial)

theorem line (hwriter : s'.writer = s.writer) (pieces : List String) :
    Mirrors f (writeLine s' pieces) (writeLine s pieces) := by
  have hpieces := forM (f := f) (linePieces pieces) id fun text _ => piece hwriter text
  rwa [List.map_id] at hpieces

end Mirrors

end Run

/-- Flows with the same members, if their questions have the same answers. -/
inductive Flow.Mirrored (f : Path → Path) : Flow (Run σ) α → Flow (Run σ) α → Prop where
  | done : Mirrored f .done .done
  | next (a : α) {rest' rest : Flow (Run σ) α} (h : Mirrored f rest' rest) :
      Mirrored f (.next a rest') (.next a rest)
  | ask {ρ : Type} {question' question : Run σ ρ} {rest' rest : ρ → Flow (Run σ) α}
      (hquestion : Run.Mirrors f question' question) (h : ∀ r, Mirrored f (rest' r) (rest r)) :
      Mirrored f (.ask question' rest') (.ask question rest)

namespace Flow.Mirrored

variable {s s' : Setting σ} {f : Path → Path} {flow flow' : Flow (Run σ) α}

theorem mapM (h : Mirrored f flow' flow) {g g' : α → Run σ β}
    (hg : ∀ a, Run.Mirrors f (g' a) (g a)) : Mirrored f (flow'.mapM g') (flow.mapM g) := by
  induction h with
  | done => exact .done
  | next a _ ih => exact .ask (hg a) fun b => .next b ih
  | ask hquestion _ ih => exact .ask hquestion ih

theorem foldM (h : Mirrored f flow' flow) {g g' : β → α → Run σ β}
    (hg : ∀ b a, Run.Mirrors f (g' b a) (g b a)) (b : β) :
    Run.Mirrors f (flow'.foldM g' b) (flow.foldM g b) := by
  induction h generalizing b with
  | done => exact .pure b
  | next a _ ih => exact (hg b a).bind ih
  | ask hquestion _ ih => exact hquestion.bind fun r => ih r b

theorem toList (h : Mirrored f flow' flow) : Run.Mirrors f flow'.toList flow.toList :=
  h.foldM (fun found a => .pure (found ++ [a])) []

/-- A question about the files has one answer in trees that are equal. -/
theorem asked {ρ : Type} (hcwd : s'.cwd = s.cwd) (question : FileSystem → ρ)
    {rest' rest : ρ → Flow (Run σ) α} (h : ∀ r, Mirrored f (rest' r) (rest r)) :
    Mirrored f (.ask (do return question (← Run.files s')) rest')
      (.ask (do return question (← Run.files s)) rest) :=
  .ask ((Run.Mirrors.files hcwd).bind fun fs => .pure (question fs)) h

end Flow.Mirrored

namespace Walk

open Groom.Flow (Mirrored)

variable {s s' : Setting σ} {f : Path → Path} {rest rest' : Flow (Run σ) Path}

theorem mirrored_skip (path : Path) (cause : IoError) (h : Mirrored f rest' rest) :
    Mirrored f (.ask (skip path cause) fun _ => rest') (.ask (skip path cause) fun _ => rest) :=
  .ask (.log _ _ _ _) fun _ => h

theorem mirrored_offer (hcwd : s'.cwd = s.cwd) (selection : Selection) (path : Path)
    (h : Mirrored f rest' rest) :
    Mirrored f (offer s' selection path rest') (offer s selection path rest) := by
  refine .asked hcwd (fun fs => fs.isFile path && selection.accepts path) fun wanted => ?_
  cases wanted with
  | false => exact h
  | true => exact .next path h

theorem mirrored_visit (hcwd : s'.cwd = s.cwd) (selection : Selection) (depth : Nat) (path : Path)
    (kind : Kind) (h : Mirrored f rest' rest) :
    Mirrored f (visit s' selection depth path kind rest')
      (visit s selection depth path kind rest) := by
  induction depth generalizing path kind rest rest' with
  | zero =>
    cases kind with
    | directory => exact mirrored_offer hcwd selection path (mirrored_skip path .nameTooLong h)
    | file | link | device => exact mirrored_offer hcwd selection path h
  | succ depth ih =>
    cases kind with
    | file | link | device => exact mirrored_offer hcwd selection path h
    | directory =>
      refine .asked hcwd (fun fs => fs.list path) fun answer => ?_
      cases answer with
      | error cause => exact mirrored_offer hcwd selection path (mirrored_skip path cause h)
      | ok listing =>
        refine mirrored_offer hcwd selection path ?_
        induction listing with
        | nil => exact h
        | cons entry listing ihl => exact ih _ _ ihl

theorem mirrored_targets (f : Path → Path) (hcwd : s'.cwd = s.cwd) (root : Path)
    (selection : Selection) :
    Mirrored f (targets s' root selection) (targets s root selection) := by
  have skipped (cause : IoError) :
      Mirrored f (.ask (skip root cause) fun _ => .done : Flow (Run σ) Path)
        (.ask (skip root cause) fun _ => .done) := mirrored_skip root cause .done
  have visited (kind : Kind) :
      Mirrored f (visit s' selection Resolution.maxPath root kind .done)
        (visit s selection Resolution.maxPath root kind .done) :=
    mirrored_visit hcwd selection _ root kind .done
  refine .asked hcwd (fun fs => fs.linkStatus root) fun answer => ?_
  cases answer with
  | error cause => exact skipped cause
  | ok named =>
    cases named with
    | file | directory | device => exact visited _
    | link target =>
      refine .asked hcwd (fun fs => fs.status root) fun answer => ?_
      cases answer with
      | error cause => exact skipped cause
      | ok node => exact visited node.kind

end Walk

namespace Tool.Plain

open Run (Mirrors)

variable {s s' : Setting σ} {f : Path → Path} {t : Tool}

theorem exists_program (h : t.Plain) : ∃ id : ToolId, t.program = .ofString id.builtin.name := by
  obtain ⟨hprogram, id, hname⟩ := h
  exact ⟨id, hprogram.trans (congrArg Path.ofString hname)⟩

/-- A probe that fails names the tool, whatever its program is. -/
theorem mirrors_probe (h : t.Plain) (hs : s'.Mimics s f) :
    Mirrors f ((t.renamed f).ensureAvailable s') (t.ensureAvailable s) := by
  have hcall : Run.IsCall s' ((t.renamed f).ensureAvailable s') (t.probeRequest.renamed f)
      t.probeVerdict := (t.renamed f).isCall_probe s'
  refine .of_isCall hs h.exists_program hcall (t.isCall_probe s) ?_
  have hprobe (answer : Except IoError Status) :
      [Event.called t.probeRequest answer].getLast? =
        some (.called ⟨.ofString t.name, t.probe, .capture⟩ answer) := by
    rw [← h.1]
    rfl
  intro answer
  rcases hanswer : answer with cause | _ | code | _
  · exact .same ⟨_, _, hprobe _⟩
  · exact rfl
  · exact .same ⟨_, _, hprobe _⟩
  · exact .same trivial

theorem last_work (h : t.Plain) (target : Path) (answer : Except IoError Status) :
    [Event.called (t.workRequest target) answer].getLast? =
      some (.called ⟨.ofString t.name, t.invocationFor target, .inherit⟩ answer) := by
  rw [← h.1]
  rfl

theorem mirrors_work (h : t.Plain) (hs : s'.Mimics s f) (target : Path) :
    Mirrors f ((t.renamed f).invokeChecked s' target) (t.invokeChecked s target) := by
  have hcall : Run.IsCall s' ((t.renamed f).invokeChecked s' target)
      ((t.workRequest target).renamed f) (t.renamed f).workVerdict :=
    (t.renamed f).isCall_work s' target
  refine .of_isCall hs h.exists_program hcall (t.isCall_work s target) ?_
  intro answer
  rcases hanswer : answer with cause | _ | code | _
  · show Told f _ (.io t.program cause) (.io (f t.program) cause)
    rw [h.1]
    exact .unstarted (h.last_work target _)
  · exact rfl
  · exact .same ⟨_, _, h.last_work target _⟩
  · exact .same trivial

end Tool.Plain

/-- A call after which nothing is done is still one call. -/
theorem Run.IsCall.bind_quiet {s : Setting σ} {m : Run σ α} {request : Request}
    {verdict : Except IoError Status → Except Error α} (hm : Run.IsCall s m request verdict)
    {g : α → Run σ β} (concluded : α → Except Error β)
    (hg : ∀ a w, (g a).Meets w fun ds r w' => ds = [] ∧ r = concluded a ∧ w.Still w') :
    Run.IsCall s (m >>= g) request fun answer => (verdict answer).bind concluded := by
  intro w reply hreply
  refine (hm w reply hreply).bind ?_ ?_
  · intro ds a w₁ hmeets
    obtain ⟨rfl, ha, htree, hrunner⟩ := hmeets
    refine (hg a w₁).mono fun ds' r w₂ hmeets => ?_
    obtain ⟨rfl, rfl, hs⟩ := hmeets
    refine ⟨rfl, ?_, hs.1.trans htree, hs.2.trans hrunner⟩
    show concluded a = (verdict reply.answer).bind concluded
    rw [← ha]
    rfl
  · intro ds e w₁ hmeets
    obtain ⟨rfl, he, htree, hrunner⟩ := hmeets
    refine ⟨rfl, ?_, htree, hrunner⟩
    show .error e = (verdict reply.answer).bind concluded
    rw [← he]
    rfl

namespace Linting

open Run (Mirrors)

variable {s s' : Setting σ} {f : Path → Path} {t : Tool}

theorem mirrors_findUnique (hcwd : s'.cwd = s.cwd) (root : Path) (name : String) :
    Mirrors f (findUnique s' root name) (findUnique s root name) := by
  refine (Walk.mirrored_targets f hcwd root (.names [name])).toList.bind fun found => ?_
  have hnoted : Mirrors f (Run.note (.searched name found) : Run σ Unit)
      (Run.note (.searched name found)) := by
    intro w' w hw
    refine (Run.note_meets _ w').mono fun ds' r' v' hmeets' =>
      (Run.note_meets _ w).mono fun ds r v hmeets => ?_
    obtain ⟨rfl, rfl, hs'⟩ := hmeets'
    obtain ⟨rfl, rfl, hs⟩ := hmeets
    exact .of_still hw hs hs' rfl rfl rfl
  refine hnoted.bind fun _ => ?_
  rcases found with _ | ⟨path, _ | ⟨path', rest⟩⟩
  · exact .throw trivial
  · exact .pure path
  · have hlogged (candidates : List Path) : (candidates.forM fun c =>
        (Run.log .debug .lint s!"Candidate {name}: {c.display}" : Run σ Unit)).Idle :=
      Run.idle_forM _ _ fun c => Run.idle_log _ _ _
    exact (Mirrors.of_talk (hlogged _) (hlogged _)).bind fun _ => .throw trivial

/-- What the answer means for one attempt. -/
def attempted (t : Tool) : FailurePolicy → Except IoError Status → Except Error Status
  | _, .ok status => .ok status
  | .abort, .error cause => .error (.io t.program cause)
  | .continue, .error _ => .ok (.failed none)

theorem isCall_attempt (s : Setting σ) (t : Tool) (policy : FailurePolicy) (path file : Path) :
    Run.IsCall s (attempt s t policy path file) (t.workRequest file) (attempted t policy) := by
  intro w reply hreply
  refine (attempt_meets s t policy path file w reply hreply).mono fun ds r w' hmeets => ?_
  obtain ⟨hd, hr, hend⟩ := hmeets
  refine ⟨hd, ?_, hend⟩
  rw [hr]
  cases policy <;> cases reply.answer <;> rfl

/-- What is concluded from a status is concluded without further deeds. -/
theorem conclusion_meets (t : Tool) (policy : FailurePolicy) (r : LintReport) (path : Path)
    (status : Status) (w : World σ) :
    (match status with
      | .success => pure { r with checked := r.checked ++ [path] }
      | .interrupted => throw .interrupted
      | .failed code =>
        match policy with
        | .abort => throw (.toolInvocation t.name (.failed code))
        | .continue => do
          Run.log .warn .lint s!"{t.name} failed on {path.display} ({(Status.failed code).text})"
          return ⟨r.checked ++ [path], r.failed ++ [path]⟩ : Run σ LintReport).Meets w
      fun ds out w' => ds = [] ∧ out = conclusion t policy r path status ∧ w.Still w' := by
  cases status with
  | success => exact .pure ⟨rfl, rfl, .refl w⟩
  | interrupted => exact .throw ⟨rfl, rfl, .refl w⟩
  | failed code =>
    cases policy with
    | abort => exact .throw ⟨rfl, rfl, .refl w⟩
    | «continue» => exact Run.log_bind_meets fun w' hs => .pure ⟨rfl, rfl, hs⟩

theorem mirrors_checkOne (ht : t.Plain) (hs : s'.Mimics s f) (policy : FailurePolicy)
    (r : LintReport) (file : Path) :
    Mirrors f (checkOne s' (t.renamed f) policy r file) (checkOne s t policy r file) := by
  refine (Mirrors.files hs.cwd).bind fun fs => (Mirrors.line hs.writer _).bind fun _ => ?_
  let path := fs.absolute file
  have hcall : Run.IsCall s _ (t.workRequest file) _ :=
    (isCall_attempt s t policy path file).bind_quiet _ (conclusion_meets t policy r path)
  have hcall' : Run.IsCall s' _ ((t.workRequest file).renamed f) _ :=
    (isCall_attempt s' (t.renamed f) policy path file).bind_quiet _
      (conclusion_meets (t.renamed f) policy r path)
  refine .of_isCall hs ht.exists_program hcall' hcall fun answer => ?_
  have hlast := ht.last_work file answer
  rcases answer with cause | _ | code | _
  · cases policy with
    | abort =>
      show Told f _ (.io t.program cause) (.io (f t.program) cause)
      rw [ht.1]
      exact .unstarted hlast
    -- here the failure to start is recorded under the path of the file, without the program
    | «continue» => exact rfl
  · exact rfl
  · cases policy with
    | abort => exact .same ⟨_, _, hlast⟩
    | «continue» => exact rfl
  · exact .same trivial

theorem mirrors_checkBatch (ht : t.Plain) (hs : s'.Mimics s f) (policy : FailurePolicy)
    {files files' : Flow (Run σ) Path} (hfiles : Flow.Mirrored f files' files) :
    Mirrors f (checkBatch s' (t.renamed f) policy files') (checkBatch s t policy files) := by
  refine (hfiles.foldM (mirrors_checkOne ht hs policy) {}).bind fun r => ?_
  split
  · exact .pure r
  · exact .throw trivial

end Linting

namespace Formatting

open Run (Mirrors)

variable {s s' : Setting σ} {f : Path → Path}

theorem mirrors_processOne {passes : List Tool} (hpasses : ∀ t ∈ passes, t.Plain)
    (hs : s'.Mimics s f) (file : Path) :
    Mirrors f (processOne s' (passes.map (·.renamed f)) file) (processOne s passes file) := by
  refine (Mirrors.capture hs.cwd file).bind fun before => ?_
  have hworked : Mirrors f ((passes.map (·.renamed f)).forM (·.invokeChecked s' file))
      (passes.forM (·.invokeChecked s file)) :=
    .forM passes (·.renamed f) fun t ht => (hpasses t ht).mirrors_work hs file
  refine hworked.bind fun _ => (Mirrors.capture hs.cwd file).bind fun after => ?_
  exact (Mirrors.log _ _ _ _).bind fun _ => (Mirrors.files hs.cwd).bind fun fs => .pure _

theorem mirrors_record (hs : s'.Mimics s f) (r : FormatReport) (o : FileOutcome) :
    Mirrors f (record s' r o) (record s r o) := by
  unfold record
  split
  · exact (Mirrors.line hs.writer _).bind fun _ => .pure _
  · exact .pure _

end Formatting

open Run (Mirrors)

theorem mirrors_probes {s s' : Setting σ} {f : Path → Path} (hs : s'.Mimics s f)
    {probes : List Tool} (hprobes : ∀ t ∈ probes, t.Plain) :
    Mirrors f ((probes.map (·.renamed f)).forM (·.ensureAvailable s'))
      (probes.forM (·.ensureAvailable s)) :=
  .forM probes (·.renamed f) fun t ht => (hprobes t ht).mirrors_probe hs

/-- One step. -/
theorem Step.mirrors {s s' : Setting σ} {f : Path → Path} (hs : s'.Mimics s f) (step : Step)
    (htools : ∀ t ∈ step.tools, t.Plain) :
    Mirrors f ((step.renamed f).run s') (step.run s) := by
  cases step with
  | format step =>
    obtain ⟨hprobes, hpasses⟩ := List.forall_mem_append.mp htools
    have houtcomes := (Walk.mirrored_targets f hs.cwd step.root step.selection).mapM
      (Formatting.mirrors_processOne hpasses hs)
    refine (mirrors_probes hs hprobes).bind fun _ => (Mirrors.log _ _ _ _).bind fun _ => ?_
    exact (houtcomes.foldM (Formatting.mirrors_record hs) {}).bind fun r => .pure _
  | lint step =>
    have htool : step.tool.Plain := htools _ List.mem_cons_self
    refine (htool.mirrors_probe hs).bind fun _ => ?_
    refine (Linting.mirrors_findUnique hs.cwd _ _).bind fun database => ?_
    have hinvocation : (step.invocation (database.parent?.getD step.searchRoot)).Plain := htool
    have hchecked := Linting.mirrors_checkBatch hinvocation hs step.policy
      (Walk.mirrored_targets f hs.cwd step.sourceDir step.selection)
    exact (Mirrors.log _ _ _ _).bind fun _ => hchecked.bind fun r => .pure _
  | analyze step =>
    have htool : step.tool.Plain := htools _ List.mem_cons_self
    have hanalyzed := (htool.mirrors_probe hs).bind fun _ => htool.mirrors_work hs step.root
    exact hanalyzed.bind fun _ => .pure _

/-- A step whose error is only talked about. -/
theorem Chain.mirrors_rethrow {f : Path → Path} {m m' : Run σ α} (hm : Mirrors f m' m)
    (level : Log.Level) (topic : Log.Topic) (message message' : Error → String) :
    Mirrors f (tryCatch m' fun e => do Run.log level topic (message' e); throw e)
      (tryCatch m fun e => do Run.log level topic (message e); throw e) := by
  intro w' w hw
  refine (hm w' w hw).tryCatch ?_ ?_
  · intro ds' a v' hmeets
    refine hmeets.tryCatch (fun ds b v h => h) fun ds e v hmatches => ?_
    cases hmatches.ends
  · intro ds' e' v' hmeets
    refine Run.log_bind_meets fun u' hs' => .throw ?_
    rw [List.append_nil]
    refine hmeets.tryCatch (fun ds b v hmatches => ?_) fun ds e v hmatches => ?_
    · cases hmatches.ends
    · refine Run.log_bind_meets fun u hs => .throw ?_
      rw [List.append_nil]
      exact ⟨hmatches.events, hmatches.plain, hs'.1.trans (hmatches.tree.trans hs.1.symm),
        hs'.2.trans (hmatches.runner.trans hs.2.symm), hmatches.ends⟩

/-- All steps of a chain, one after another. -/
theorem Chain.mirrors {s s' : Setting σ} {f : Path → Path} (hs : s'.Mimics s f)
    {steps : List Step} (htools : ∀ step ∈ steps, ∀ t ∈ step.tools, t.Plain) :
    Mirrors f (Chain.runSteps s' (steps.map (·.renamed f))) (Chain.runSteps s steps) := by
  induction steps with
  | nil => exact .pure []
  | cons step rest ih =>
    obtain ⟨hfirst, hrest⟩ := List.forall_mem_cons.mp htools
    have htask : Mirrors f (Chain.runTask ((step.renamed f).task s'))
        (Chain.runTask (step.task s)) :=
      (Mirrors.log _ _ _ _).bind fun _ => Chain.mirrors_rethrow (step.mirrors hs hfirst) _ _ _ _
    rw [List.map_cons, Chain.runSteps_cons, Chain.runSteps_cons]
    exact htask.bind fun report => (ih hrest).bind fun reports => .pure (report :: reports)

/-- A runner that treats programs alike by either name leaves the same after the same requests. -/
theorem Setting.Mimics.replay {s s' : Setting σ} {f : Path → Path} (hs : s'.Mimics s f)
    {requests : List Request}
    (hplain : ∀ request ∈ requests, ∃ id : ToolId, request.program = .ofString id.builtin.name)
    (start : σ × Tree) :
    s'.replay (requests.map (Request.renamed f)) start = s.replay requests start := by
  induction requests generalizing start with
  | nil => rfl
  | cons request rest ih =>
    obtain ⟨⟨id, hid⟩, hrest⟩ := List.forall_mem_cons.mp hplain
    have hreply := hs.runner id request.args request.output start.1 start.2
    rw [← hid] at hreply
    obtain ⟨-, hstate, htree⟩ := hreply
    have hone : s'.replay [request.renamed f] start = s.replay [request] start :=
      Prod.ext hstate htree
    calc s'.replay ((request :: rest).map (Request.renamed f)) start
        = s'.replay (rest.map (Request.renamed f)) (s'.replay [request.renamed f] start) := rfl
      _ = s.replay rest (s.replay [request] start) := by rw [hone, ih hrest]

end Groom
