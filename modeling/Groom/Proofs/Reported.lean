import Groom.Proofs.Absolute
import Groom.Proofs.Replay
import Groom.Proofs.Reporting

/-! The paths in the report of a formatting step and in its text. Whatever the tools do to the tree,
such a path is absolute and leads to the very file that was captured after the last pass. -/
namespace Groom

variable {σ : Type}

/-- A file whose bytes can be read is there. -/
theorem FileSystem.denotes_of_read {fs : FileSystem} {p : Path} {content : Bytes}
    (h : fs.read p = .ok content) : ∃ loc node, fs.Denotes p loc node := by
  unfold read at h
  cases hstatus : fs.status p with
  | error e =>
    rw [hstatus] at h
    cases h
  | ok node =>
    obtain ⟨loc, hr⟩ | ⟨-, rfl⟩ := entry_eq_ok_iff.mp hstatus
    · obtain ⟨node', hdenotes⟩ := ofPath_of_leadsTo ⟨node, hr⟩
      exact ⟨loc, node', hdenotes⟩
    · rw [hstatus] at h
      cases h

/-- The tree after some deeds, seen from the working directory. -/
def Setting.seen (s : Setting σ) (start : σ × Tree) (ds : List Event) : FileSystem :=
  ⟨(s.replay ((calls ds).map (·.1)) start).2, s.cwd⟩

namespace Formatting

/-- The path that is reported for a file is the absolute form of the path by which it was found, and
leads to the entry whose bytes are captured after the work on it. The tree is that after the work.
-/
structure Turn.Identifies (t : Turn) (fs : FileSystem) : Prop where
  read : fs.read t.file = .ok t.after
  path : t.outcome.path = fs.absolute t.file
  direct : fs.Anchors t.file →
    ∃ loc node, fs.Denotes t.file loc node ∧ fs.Direct t.outcome.path loc node

theorem Turn.Identifies.of_read {t : Turn} {fs : FileSystem} (hread : fs.read t.file = .ok t.after)
    (hpath : t.outcome.path = fs.absolute t.file) : t.Identifies fs := by
  refine ⟨hread, hpath, fun hanchors => ?_⟩
  obtain ⟨loc, node, hdenotes⟩ := FileSystem.denotes_of_read hread
  exact ⟨loc, node, hdenotes, hpath ▸ FileSystem.direct_absolute hanchors hdenotes⟩

/-- The work on a file below the root is among the deeds of a step, and its path identifies it. -/
def Vouched (s : Setting σ) (step : FormatStep) (start : σ × Tree) (ds : List Event) (t : Turn) :
    Prop :=
  t.file.isAbsolute = step.root.isAbsolute ∧
    ∃ early late, ds = early ++ t.work step.passes ++ late ∧
      t.Identifies (s.seen start (early ++ t.work step.passes))

variable {s : Setting σ} {step : FormatStep} {start : σ × Tree} {ds : List Event} {w : World σ}

theorem Vouched.append {t : Turn} (h : Vouched s step start ds t) (more : List Event) :
    Vouched s step start (ds ++ more) t := by
  obtain ⟨hroot, early, late, rfl, hidentifies⟩ := h
  exact ⟨hroot, early, late ++ more, List.append_assoc .., hidentifies⟩

/-- What is known of a batch while it goes on. -/
structure Recounted (s : Setting σ) (step : FormatStep) (start : σ × Tree) (turns : List Turn)
    (r : FormatReport) (ds : List Event) (w : World σ) : Prop where
  vouched : ∀ t ∈ turns, Vouched s step start ds t
  report_eq : r = summary (turns.map (·.outcome))
  text_eq : text ds = announcements (turns.map (·.outcome))
  replayed : (w.runner, w.tree) = s.replay ((calls ds).map (·.1)) start

/-- What is known of a batch that was stopped: the text ends with a part of a line at most. -/
def CutOff (s : Setting σ) (step : FormatStep) (start : σ × Tree) (ds : List Event) : Prop :=
  ∃ (turns : List Turn) (cut : String), (∀ t ∈ turns, Vouched s step start ds t) ∧
    text ds = announcements (turns.map (·.outcome)) ++ cut ∧
    (cut ≠ "" → ∃ t missing, Vouched s step start ds t ∧
      announcement t.outcome.path = cut ++ missing)

/-- The work on one file is one turn, which identifies it, if it comes to its end. Otherwise it
writes nothing. -/
theorem processOne_vouched {file : Path} (hfile : file.isAbsolute = step.root.isAbsolute)
    (hreplayed : (w.runner, w.tree) = s.replay ((calls ds).map (·.1)) start) :
    (processOne s step.passes file).Meets w fun ds' out w' => text ds' = "" ∧
      (w'.runner, w'.tree) = s.replay ((calls (ds ++ ds')).map (·.1)) start ∧
      ∀ o, out = .ok o → ∃ t : Turn, t.outcome = o ∧ Vouched s step start (ds ++ ds') t := by
  have hcourse := processOne_meets_course s step.passes file w
  have htext := processOne_reports s step.passes file w
  have hkeeps := Run.Keeps.processOne (s.preserves_replay start) step.passes file w (calls ds)
    hreplayed
  refine ((hcourse.and htext).and hkeeps).mono fun ds' out w' hmeets => ?_
  obtain ⟨⟨hcourse, htext, -⟩, hreplayed'⟩ := hmeets
  rw [← calls_append] at hreplayed'
  refine ⟨htext, hreplayed', ?_⟩
  rintro o rfl
  generalize hend : (w'.runner, w'.tree) = y at hcourse
  cases hcourse with
  | @finished before after y change hbefore hpasses hafter hchange =>
    let t : Turn := ⟨file, before, after, ⟨(FileSystem.mk y.2 s.cwd).absolute file, change⟩⟩
    have hseen : s.seen start (ds ++ t.work step.passes) = ⟨y.2, s.cwd⟩ := by
      rw [← hend, hreplayed']
      rfl
    refine ⟨t, rfl, hfile, ds, [], (List.append_nil _).symm, ?_⟩
    rw [hseen]
    exact .of_read hafter rfl

theorem recounted_step {file : Path} {turns : List Turn} {r : FormatReport}
    (hfile : file.isAbsolute = step.root.isAbsolute) (h : Recounted s step start turns r ds w) :
    (processOne s step.passes file >>= record s r).Meets w fun ds' out w' =>
      Run.Ends (fun r ds w => ∃ turns, Recounted s step start turns r ds w)
        (fun _ ds _ => CutOff s step start ds) (ds ++ ds') out w' := by
  refine (processOne_vouched hfile h.replayed).bind ?_ ?_
  · intro ds₁ o w₁ hmeets
    obtain ⟨htext₁, hreplayed, hturn⟩ := hmeets
    obtain ⟨t, rfl, hvouched⟩ := hturn o rfl
    refine ((record_meets s r t.outcome w₁).and (Run.Quiet.record s r t.outcome w₁)).mono ?_
    intro ds₂ out w₂ hmeets
    obtain ⟨⟨hstill, -, hout⟩, hcalls, -⟩ := hmeets
    have hbefore : text (ds ++ ds₁) = announcements (turns.map (·.outcome)) := by
      rw [text_append, htext₁, String.append_empty, h.text_eq]
    have hturns : ∀ t' ∈ turns, Vouched s step start (ds ++ (ds₁ ++ ds₂)) t' := fun t' ht' =>
      (h.vouched t' ht').append _
    have hvouched' : Vouched s step start (ds ++ (ds₁ ++ ds₂)) t := by
      rw [← List.append_assoc]
      exact hvouched.append ds₂
    cases out with
    | ok r' =>
      obtain ⟨rfl, htext₂⟩ := hout
      refine ⟨turns ++ [t], ?_, ?_, ?_, ?_⟩
      · exact List.forall_mem_append.mpr ⟨hturns, List.forall_mem_singleton.mpr hvouched'⟩
      · rw [List.map_append, List.map_singleton, summary_concat, h.report_eq]
      · rw [← List.append_assoc, text_append, hbefore, htext₂, List.map_append, List.map_singleton,
          announcements_append]
        by_cases hchanged : t.outcome.change = .changed <;> simp [announcements, hchanged]
      · have hsame : calls (ds ++ (ds₁ ++ ds₂)) = calls (ds ++ ds₁) := by simp [hcalls]
        rw [hstill.1, hstill.2, hreplayed, hsame]
    | error e =>
      obtain ⟨missing, -, hline⟩ := hout
      refine ⟨turns, text ds₂, hturns, ?_, fun _ => ⟨t, missing, hvouched', hline⟩⟩
      rw [← List.append_assoc, text_append, hbefore]
  · intro ds₁ e w₁ hmeets
    obtain ⟨htext₁, -, -⟩ := hmeets
    refine ⟨turns, "", fun t ht => (h.vouched t ht).append ds₁, ?_, fun hne => absurd rfl hne⟩
    rw [text_append, htext₁, h.text_eq]

theorem recounted_batch (h : Recounted s step start [] {} ds w) :
    (report s ((Walk.targets s step.root step.selection).mapM (processOne s step.passes))).Meets w
      fun ds' out w' => Run.Ends (fun r ds w => ∃ turns, Recounted s step start turns r ds w)
        (fun _ ds _ => CutOff s step start ds) (ds ++ ds') out w' := by
  -- the walk finds its files below the root, so all of them are absolute if the root is
  have hfound : ∀ x ∈ Flow.trail (fun r file => processOne s step.passes file >>= record s r) {}
      (Walk.targets s step.root step.selection) w, x.1.isAbsolute = step.root.isAbsolute := by
    intro x hx
    obtain ⟨_, _, place, -, hplace, -⟩ := (Walk.finds_targets w).of_mem_trail hx
    rw [hplace, Path.isAbsolute_below]
  unfold report
  rw [Flow.foldM_mapM]
  refine (Walk.targets_idle s step.root step.selection).foldM_meets_trail _
    (fun file _ => file.isAbsolute = step.root.isAbsolute)
    (fun r ds w => ∃ turns, Recounted s step start turns r ds w)
    (fun _ ds _ => CutOff s step start ds) ?_ ?_ ({} : FormatReport) ds w hfound ⟨[], h⟩
  · rintro r ds w₁ w₂ hstill ⟨turns, h⟩
    exact ⟨turns, h.vouched, h.report_eq, h.text_eq, by rw [hstill.1, hstill.2, h.replayed]⟩
  · rintro r file ds w₁ hfile ⟨turns, h⟩
    exact recounted_step hfile h

end Formatting

namespace FormatStep

open Formatting (Turn Vouched Recounted CutOff announcement announcements summary)

theorem recounted_of_run (s : Setting σ) (step : FormatStep) (w : World σ) :
    (step.run s).Meets w fun ds out w' => Run.Ends
      (fun a ds w' => ∃ turns r, a = .formatted r ∧
        Recounted s step (w.runner, w.tree) turns r ds w')
      (fun _ ds _ => CutOff s step (w.runner, w.tree) ds) ds out w' := by
  have hpreserves := s.preserves_replay (w.runner, w.tree)
  have hsilent := Formatting.calls_silent (fun tool => ⟨_, _, tool.isCall_probe s⟩) step.probes w
  have hprobed := Run.Keeps.forM step.probes (fun tool => Run.Keeps.probe hpreserves tool) w [] rfl
  refine (hsilent.and hprobed).bind ?_ ?_
  · intro ds₁ _ w₁ hmeets
    obtain ⟨htext, hreplayed⟩ := hmeets
    refine Run.log_bind_meets fun w₂ hs => ?_
    have hstart : Recounted s step (w.runner, w.tree) [] {} ds₁ w₂ := by
      refine ⟨nofun, rfl, htext.trans String.join_nil.symm, ?_⟩
      rw [hs.1, hs.2]
      exact hreplayed
    refine (Formatting.recounted_batch hstart).bind ?_ ?_
    · rintro ds₂ r w₃ ⟨turns, h⟩
      refine .pure ⟨turns, r, rfl, ?_⟩
      rwa [List.append_nil]
    · exact fun _ _ _ h => h
  · intro ds₁ e w₁ hmeets
    exact ⟨[], "", nofun, by rw [hmeets.1]; rfl, fun hne => absurd rfl hne⟩

/-- A path that leads to an entry has one absolute form, without dots and links, and two such paths
have the same if and only if they lead to one entry. Any other path is written out from the root as
it stands. So the paths in the report of a step and in its text lead to the files whose bytes were
captured after the last pass, whatever the tools do to the tree; of the line that is refused only a
part is written. -/
theorem reported_paths_identify_files {fs : FileSystem} {here : Path} (hhere : fs.here? = some here)
    (s : Setting σ) (step : FormatStep) (w : World σ) :
    (∀ p loc node, fs.Denotes p loc node →
      fs.Direct (fs.absolute p) loc node ∧ fs.absolute (fs.absolute p) = fs.absolute p ∧
      ∀ q loc' node', fs.Denotes q loc' node' → (fs.absolute p = fs.absolute q ↔ loc = loc')) ∧
    (∀ p, p.bytes ≠ [] → (∀ loc node, ¬fs.Denotes p loc node) →
      (fs.absolute p).isAbsolute = true ∧ (fs.absolute p).components =
        (if p.isAbsolute then p.components else here.components ++ p.components).filter
          (· ≠ .here)) ∧
    (step.run s).Meets w fun ds out _ => ∃ (turns : List Turn) (cut : String),
      (∀ t ∈ turns, Vouched s step (w.runner, w.tree) ds t) ∧
      text ds = announcements (turns.map (·.outcome)) ++ cut ∧
      (cut ≠ "" → ∃ t missing, Vouched s step (w.runner, w.tree) ds t ∧
        announcement t.outcome.path = cut ++ missing) ∧
      ∀ a, out = .ok a → cut = "" ∧ a = .formatted (summary (turns.map (·.outcome))) := by
  have hanchors (p : Path) : fs.Anchors p := .inr (by simp [hhere])
  refine ⟨?_, ?_, ?_⟩
  · intro p loc node h
    refine ⟨FileSystem.direct_absolute (hanchors p) h, FileSystem.absolute_absolute (hanchors p) h,
      fun q loc' node' h' => ?_⟩
    exact FileSystem.absolute_eq_iff (hanchors p) (hanchors q) h h'
  · intro p hp hnone
    exact ⟨FileSystem.isAbsolute_absolute hhere hp hnone,
      FileSystem.components_absolute hhere hp hnone⟩
  · refine (recounted_of_run s step w).mono fun ds out w' hends => ?_
    cases out with
    | ok a =>
      obtain ⟨turns, r, rfl, h⟩ := hends
      refine ⟨turns, "", h.vouched, ?_, fun hne => absurd rfl hne, ?_⟩
      · rw [h.text_eq, String.append_empty]
      · rintro _ ⟨⟩
        exact ⟨rfl, by rw [h.report_eq]⟩
    | error e =>
      obtain ⟨turns, cut, hvouched, htext, hcut⟩ := hends
      exact ⟨turns, cut, hvouched, htext, hcut, nofun⟩

namespace Detour

/-- The directory `d` with the file `f`, a link `l` to the directory, and a link `m` to the file
that goes through the other link. The working directory is `d`. -/
def tree : Tree :=
  ⟨[(⟨[100], by decide⟩, .directory [(⟨[102], by decide⟩, .file [120] false)]),
    (⟨[108], by decide⟩, .link [100]), (⟨[109], by decide⟩, .link [108, 47, 102])], []⟩

def cwd : Working := ⟨[⟨[100], by decide⟩], 0⟩

/-- Every tool adds a byte to the file it is run on. -/
def setting : Setting Unit where
  cwd := cwd
  runner := fun request _ tree => ⟨.ok .success, [], (), match request.output, request.args with
    | .inherit, [file] =>
      match (FileSystem.mk tree cwd).modify ⟨file⟩ (· ++ [33]) with
      | .ok fs => fs.tree
      | .error _ => tree
    | _, _ => tree⟩
  writer := .willing

/-- The files called `f` below the link `../l`. -/
def step : FormatStep :=
  ⟨"append", ⟨[46, 46, 47, 108]⟩, .names ["f"], [.named "append"], [.named "append"]⟩

def world : World Unit := ⟨tree, (), []⟩

end Detour

/-- The paths `../l/./f` and `../m` lead to one file past links and dots, `../l/../g` leads nowhere,
and a step whose root is the link reports the file itself. -/
theorem file_identified_past_links :
    let fs := FileSystem.mk Detour.tree Detour.cwd
    let file : Path := ⟨[47, 100, 47, 102]⟩
    fs.here? = some ⟨[47, 100]⟩ ∧
    fs.absolute ⟨[46, 46, 47, 108, 47, 46, 47, 102]⟩ = fs.absolute ⟨[46, 46, 47, 109]⟩ ∧
    (fs.absolute ⟨[46, 46, 47, 108, 47, 46, 46, 47, 103]⟩).components =
      [.root, .name [100], .up, .name [108], .up, .name [103]] ∧
    (Detour.step.run Detour.setting).Meets Detour.world fun ds out _ =>
      out = .ok (.formatted ⟨[file], [file]⟩) ∧ ∃ t : Turn, t.outcome.path = file ∧
        Vouched Detour.setting Detour.step ((), Detour.tree) ds t := by
  intro fs file
  have hhere : fs.here? = some ⟨[47, 100]⟩ := by decide
  have hanchors (p : Path) : fs.Anchors p := .inr (by decide)
  have hnone : ∀ loc node, ¬fs.Denotes ⟨[46, 46, 47, 108, 47, 46, 46, 47, 103]⟩ loc node := by
    intro loc node h
    cases ((FileSystem.denotes_iff (hanchors _)).mp h).2
  let place : Location := [⟨[100], by decide⟩, ⟨[102], by decide⟩]
  have hfile (p : Path) (hvalid : Resolution.validate p = .ok ())
      (hp : Resolution.resolveFrom fs.tree .follow Resolution.maxLinks
        (if p.isAbsolute then [] else fs.cwd.place) (Resolution.steps p) =
          .ok (.entry place (.file [120] false))) : fs.Denotes p place (.file [120] false) :=
    (FileSystem.denotes_iff (hanchors p)).mpr ⟨hvalid, hp⟩
  have hrun : (Detour.step.run Detour.setting).outcome Detour.world =
      .ok (.formatted ⟨[file], [file]⟩) := by
    decide +kernel
  obtain ⟨hdirect, hwritten, hreport⟩ :=
    reported_paths_identify_files hhere Detour.setting Detour.step Detour.world
  obtain ⟨-, -, hsame⟩ := hdirect _ _ _ (hfile ⟨[46, 46, 47, 108, 47, 46, 47, 102]⟩ rfl rfl)
  refine ⟨hhere, (hsame _ _ _ (hfile ⟨[46, 46, 47, 109]⟩ rfl rfl)).mpr rfl, ?_, ?_⟩
  · exact (hwritten _ (by decide) hnone).2
  · refine hreport.exactly.mono fun ds out w' hmeets => ?_
    obtain ⟨⟨turns, cut, hvouched, -, -, hok⟩, hout, -⟩ := hmeets
    obtain rfl : .ok (.formatted ⟨[file], [file]⟩) = out := hrun.symm.trans hout
    refine ⟨rfl, ?_⟩
    have hsummary := StepReport.formatted.inj (hok _ rfl).2
    have hpaths : [file] = (turns.map (·.outcome)).map (·.path) :=
      congrArg FormatReport.processed hsummary
    obtain ⟨o, ho, hpath⟩ := List.mem_map.mp (hpaths ▸ List.mem_singleton.mpr rfl)
    obtain ⟨t, ht, rfl⟩ := List.mem_map.mp ho
    exact ⟨t, hpath, hvouched t ht⟩

end FormatStep

end Groom
