import Groom.Step
import Groom.Proofs.Rewriting
import Groom.Proofs.SteadyWalk

/-! What a formatting step reports is what it changed. It works on a tree without links, with tools
that change at most the bytes of the file they are run on; the report and the written lines are then
compared with the files before and after the step. -/
namespace Groom

variable {σ : Type}

namespace Formatting

variable {s : Setting σ} {passes : List Tool} {w : World σ}

/-- The text written for those files of a list that differ. -/
def records (before after : FileSystem) (files : List Path) : String :=
  String.join ((files.filter (before.differs after)).map fun f => announcement (before.absolute f))

theorem records_append (before after : FileSystem) (files more : List Path) :
    records before after (files ++ more) =
      records before after files ++ records before after more := by
  simp [records, String.join_append]

theorem records_singleton (before after : FileSystem) (file : Path) :
    records before after [file] =
      if before.differs after file then announcement (before.absolute file) else "" := by
  cases h : before.differs after file <;> simp [records, h, String.join_cons, String.join_nil]

/-- What holds of a batch when some files are done and at most those of `touched` were worked on: no
other file was changed, and the done ones that differ are in the report and in the text. -/
structure Kept (s : Setting σ) (t : Tree) (touched done : List Path) (r : FormatReport)
    (ds : List Event) (w : World σ) : Prop where
  shape : t.SameShape w.tree
  others : ∀ loc, (∀ f ∈ touched, ¬(FileSystem.mk t s.cwd).LeadsTo f loc) →
    w.tree.content? loc = t.content? loc
  processed : r.processed = done.map (FileSystem.mk t s.cwd).absolute
  changed : r.changed = (done.filter ((FileSystem.mk t s.cwd).differs ⟨w.tree, s.cwd⟩)).map
    (FileSystem.mk t s.cwd).absolute
  text_eq : text ds = records ⟨t, s.cwd⟩ ⟨w.tree, s.cwd⟩ done

/-- What holds between two files: none but those that are done were worked on. -/
abbrev Done (s : Setting σ) (t : Tree) (done : List Path) :
    FormatReport → List Event → World σ → Prop :=
  Kept s t done done

/-- What holds while a file is worked on: that one may differ too, and it was captured last. -/
structure Touched (s : Setting σ) (t : Tree) (done : List Path) (current : Path) (r : FormatReport)
    (ds : List Event) (w : World σ) : Prop extends Kept s t (done ++ [current]) done r ds w where
  captured : (captures ds).getLast? = some current

/-- What holds of a batch that stopped at a file: of the other files only those done before it may
differ, and their lines are all that was written, up to a part of the line for this one. -/
structure Stopped (s : Setting σ) (t : Tree) (done : List Path) (current : Path) (ds : List Event)
    (w : World σ) : Prop where
  shape : t.SameShape w.tree
  others : ∀ loc, (∀ f ∈ done ++ [current], ¬(FileSystem.mk t s.cwd).LeadsTo f loc) →
    w.tree.content? loc = t.content? loc
  text_eq : ∃ cut missing, text ds = records ⟨t, s.cwd⟩ ⟨w.tree, s.cwd⟩ done ++ cut ∧
    missing ≠ "" ∧ announcement ((FileSystem.mk t s.cwd).absolute current) = cut ++ missing
  captured : (captures ds).getLast? = some current

namespace Touched

variable {t : Tree} {done : List Path} {current : Path} {r : FormatReport} {ds ds' : List Event}
  {w' : World σ}

/-- With its line, if it was changed, the file is done. -/
theorem recorded (h : Touched s t done current r ds w) {o : FileOutcome}
    (hpath : o.path = (FileSystem.mk t s.cwd).absolute current)
    (hchange : o.change = .changed ↔ (FileSystem.mk t s.cwd).differs ⟨w.tree, s.cwd⟩ current = true)
    (hs : w.Still w') (htext : text ds' = if o.change = .changed then announcement o.path else "") :
    Done s t (done ++ [current]) (r.add o) (ds ++ ds') w' := by
  have ht : w'.tree = w.tree := hs.1
  refine ⟨ht ▸ h.shape, ht ▸ h.others, ?_, ?_, ?_⟩
  · simp [FormatReport.add, h.processed, hpath]
  · rw [ht, List.filter_append, List.map_append, ← h.changed]
    cases hd : (FileSystem.mk t s.cwd).differs ⟨w.tree, s.cwd⟩ current <;>
      simp [FormatReport.add, hchange, hd, hpath]
  · rw [ht, records_append, records_singleton, ← h.text_eq, text_append, htext, hpath]
    simp only [hchange]

/-- With no more than a part of its line, the batch has stopped at the file. -/
theorem stopped (h : Touched s t done current r ds w) (hs : w.Still w') {missing : String}
    (hmissing : missing ≠ "")
    (hline : announcement ((FileSystem.mk t s.cwd).absolute current) = text ds' ++ missing)
    (hcaptures : captures ds' = []) : Stopped s t done current (ds ++ ds') w' := by
  have ht : w'.tree = w.tree := hs.1
  refine ⟨ht ▸ h.shape, ht ▸ h.others, ⟨text ds', missing, ?_, hmissing, hline⟩, ?_⟩
  · rw [ht, text_append, h.text_eq]
  · rw [captures_append, hcaptures, List.append_nil, h.captured]

end Touched

section

open Walk (Batch)

variable {cwd : Working} {t t₁ t₂ : Tree} {files done later : List Path} {current : Path}

theorem leadsTo_of_mem (hb : Batch ⟨t, cwd⟩ files) {f : Path} (hf : f ∈ files) :
    ∃ loc, (FileSystem.mk t cwd).LeadsTo f loc := by
  obtain ⟨loc, -, hleads, -⟩ := FileSystem.isFile_iff.mp (hb.isFile f hf)
  exact ⟨loc, hleads⟩

theorem bytes?_of_mem (hb : Batch ⟨t, cwd⟩ files) {f : Path} (hf : f ∈ files) (hs : t.SameShape t₁)
    {loc : Location} (hleads : (FileSystem.mk t cwd).LeadsTo f loc) :
    (FileSystem.mk t₁ cwd).bytes? f = t₁.content? loc := by
  refine FileSystem.bytes?_of_isFile ?_ (hleads.shape hs hb.linkless)
  rw [FileSystem.isFile_shape hs hb.linkless]
  exact hb.isFile f hf

theorem bytes?_of_others (hb : Batch ⟨t, cwd⟩ files) {f : Path} (hf : f ∈ files)
    (hs₁ : t.SameShape t₁) (hs₂ : t.SameShape t₂)
    (h : ∀ loc, (FileSystem.mk t cwd).LeadsTo f loc → t₂.content? loc = t₁.content? loc) :
    (FileSystem.mk t₂ cwd).bytes? f = (FileSystem.mk t₁ cwd).bytes? f := by
  obtain ⟨loc, hleads⟩ := leadsTo_of_mem hb hf
  rw [bytes?_of_mem hb hf hs₂ hleads, bytes?_of_mem hb hf hs₁ hleads, h loc hleads]

/-- What is done to one file does not touch those that were done before it. -/
theorem bytes?_of_done (hb : Batch ⟨t, cwd⟩ files) (hfiles : files = done ++ current :: later)
    (hs : t.SameShape t₁) (hr : Rewrites cwd current t₁ t₂) {f : Path} (hf : f ∈ done) :
    (FileSystem.mk t₂ cwd).bytes? f = (FileSystem.mk t₁ cwd).bytes? f := by
  have hmem : f ∈ files := hfiles ▸ List.mem_append_left _ hf
  have hcurrent : current ∈ files := hfiles ▸ List.mem_append_right _ List.mem_cons_self
  refine bytes?_of_others hb hmem hs (hs.trans hr.shape) fun loc hleads => hr.others loc ?_
  -- two paths to one place would be one path, and no path comes twice
  intro hleads'
  obtain rfl := hb.apart f hmem current hcurrent loc hleads
    (hleads'.shape hs.symm (hs.linkless hb.linkless))
  have hnodup := hb.nodup
  rw [hfiles] at hnodup
  exact (List.nodup_append.mp hnodup).2.2 f hf f List.mem_cons_self rfl

/-- Those that come later are as they were, if only these have been touched. -/
theorem bytes?_of_later {touched : List Path} (hb : Batch ⟨t, cwd⟩ files)
    (hfiles : files = touched ++ later) (hs : t.SameShape t₁)
    (hothers : ∀ loc, (∀ f ∈ touched, ¬(FileSystem.mk t cwd).LeadsTo f loc) →
      t₁.content? loc = t.content? loc) {f : Path} (hf : f ∈ later) :
    (FileSystem.mk t₁ cwd).bytes? f = (FileSystem.mk t cwd).bytes? f := by
  have hmem : f ∈ files := hfiles ▸ List.mem_append_right _ hf
  refine bytes?_of_others hb hmem (.refl t) hs fun loc hleads => hothers loc fun g hg hleads' => ?_
  obtain rfl := hb.apart f hmem g (hfiles ▸ List.mem_append_left _ hg) loc hleads hleads'
  have hnodup := hb.nodup
  rw [hfiles] at hnodup
  exact (List.nodup_append.mp hnodup).2.2 f hg f hf rfl

theorem differs_of_done (hb : Batch ⟨t, cwd⟩ files) (hfiles : files = done ++ current :: later)
    (hs : t.SameShape t₁) (hr : Rewrites cwd current t₁ t₂) :
    done.filter ((FileSystem.mk t cwd).differs ⟨t₂, cwd⟩) =
      done.filter ((FileSystem.mk t cwd).differs ⟨t₁, cwd⟩) := by
  refine List.filter_congr fun f hf => ?_
  rw [FileSystem.differs, FileSystem.differs, bytes?_of_done hb hfiles hs hr hf]

theorem others_of_rewrites (hb : Batch ⟨t, cwd⟩ files) (hs : t.SameShape t₁)
    (hothers : ∀ loc, (∀ f ∈ done, ¬(FileSystem.mk t cwd).LeadsTo f loc) →
      t₁.content? loc = t.content? loc) (hr : Rewrites cwd current t₁ t₂) (loc : Location)
    (h : ∀ f ∈ done ++ [current], ¬(FileSystem.mk t cwd).LeadsTo f loc) :
    t₂.content? loc = t.content? loc := by
  obtain ⟨hdone, hcurrent⟩ := List.forall_mem_append.mp h
  refine (hr.others loc fun hleads => ?_).trans (hothers loc hdone)
  exact hcurrent current List.mem_cons_self (hleads.shape hs.symm (hs.linkless hb.linkless))

end

variable {t : Tree} {files done later : List Path} {current : Path} {r : FormatReport}
  {ds : List Event}

/-- The passes on the next file keep what holds of those that are done. -/
theorem touched_of_rewrites (hb : Walk.Batch ⟨t, s.cwd⟩ files)
    (hfiles : files = done ++ current :: later) (hdone : Done s t done r ds w) {w' : World σ}
    (hr : Rewrites s.cwd current w.tree w'.tree) {ds' : List Event} (htext : text ds' = "")
    (hcaptures : ∃ front, captures ds' = front ++ [current]) :
    Touched s t done current r (ds ++ ds') w' := by
  have hfilter := differs_of_done hb hfiles hdone.shape hr
  refine ⟨⟨hdone.shape.trans hr.shape, others_of_rewrites hb hdone.shape hdone.others hr,
    hdone.processed, ?_, ?_⟩, ?_⟩
  · rw [hfilter, ← hdone.changed]
  · rw [records, hfilter, ← records, ← hdone.text_eq, text_append, htext, String.append_empty]
  · obtain ⟨front, hcaptures⟩ := hcaptures
    simp [hcaptures]

/-- One file more: it is done, or the batch stops at it. -/
theorem step_meets (hb : Walk.Batch ⟨t, s.cwd⟩ files) (hfiles : files = done ++ current :: later)
    (hcareful : Careful s current passes w.runner w.tree) (hdone : Done s t done r ds w) :
    (processOne s passes current >>= record s r).Meets w fun ds' out w' =>
      Run.Ends (Done s t (done ++ [current])) (fun _ => Stopped s t done current) (ds ++ ds') out
        w' := by
  have hmem : current ∈ files := hfiles ▸ List.mem_append_right _ List.mem_cons_self
  have hfile : (FileSystem.mk w.tree s.cwd).isFile current = true := by
    rw [FileSystem.isFile_shape hdone.shape hb.linkless]
    exact hb.isFile current hmem
  have hunchanged : (FileSystem.mk w.tree s.cwd).bytes? current =
      (FileSystem.mk t s.cwd).bytes? current :=
    bytes?_of_later hb hfiles hdone.shape hdone.others List.mem_cons_self
  refine (processOne_meets (hdone.shape.linkless hb.linkless) hfile hcareful).bind ?_ ?_
  · intro ds₁ o w₁ hmeets
    obtain ⟨htext, hcaptures, hr, ho⟩ := hmeets
    have htouched := touched_of_rewrites hb hfiles hdone hr htext hcaptures
    obtain ⟨hpath, hchange⟩ := ho o rfl
    rw [FileSystem.absolute_shape htouched.shape hb.linkless] at hpath
    rw [FileSystem.differs, hunchanged, ← FileSystem.differs] at hchange
    refine (record_meets s r o w₁).mono ?_
    intro ds₂ out w₂ hmeets
    obtain ⟨hs, hcaptures', hout⟩ := hmeets
    rw [← List.append_assoc]
    cases out with
    | ok r' =>
      obtain ⟨rfl, htext'⟩ := hout
      exact htouched.recorded hpath hchange hs htext'
    | error e =>
      obtain ⟨missing, hmissing, hline⟩ := hout
      rw [hpath] at hline
      exact htouched.stopped hs hmissing hline hcaptures'
  · intro ds₁ e w₁ hmeets
    obtain ⟨htext, hcaptures, hr, -⟩ := hmeets
    have htouched := touched_of_rewrites hb hfiles hdone hr htext hcaptures
    have hstopped := htouched.stopped (.refl w₁) (announcement_ne_empty _)
      (String.empty_append (s := announcement _)).symm captures_nil
    rwa [List.append_nil] at hstopped

theorem batch_meets {flow : Flow (Run σ) Path} (hb : Walk.Batch ⟨t, s.cwd⟩ files)
    (hflow : flow.Foreseen t.SameShape files) (ht : w.tree = t)
    (hcareful : ∀ x ∈ flow.trail (fun r file => processOne s passes file >>= record s r) {} w,
      Careful s x.1 passes x.2.runner x.2.tree) :
    (report s (flow.mapM (processOne s passes))).Meets w fun ds r w' =>
      Run.Ends (Done s t files)
        (fun _ ds w' => ∃ done current later, files = done ++ current :: later ∧
          Stopped s t done current ds w') ds r w' := by
  unfold report
  rw [Flow.foldM_mapM]
  have hstart : Done s t [] {} [] w := by
    rw [← ht]
    exact ⟨.refl w.tree, fun _ _ => rfl, rfl, rfl, rfl⟩
  refine hflow.foldM_meets _ (fun file w => Careful s file passes w.runner w.tree)
    (Done s t) (fun done current _ _ => Stopped s t done current) ?_ ?_ ?_ []
    (List.nil_append files).symm {} [] w hcareful hstart
  · exact fun _ _ _ _ h => h.shape
  · rintro done r ds w₁ w₂ ⟨ht, _⟩ h
    exact ⟨ht ▸ h.shape, ht ▸ h.others, h.processed, ht ▸ h.changed, ht ▸ h.text_eq⟩
  · intro done current later r ds w' hfiles hcareful hdone
    exact step_meets hb hfiles hcareful hdone

end Formatting

namespace FormatStep

open Formatting (Careful Done Stopped announcement records processOne record)

/-- The files that a step comes to, each with the world in which it finds them. -/
def visits (s : Setting σ) (step : FormatStep) (w : World σ) : List (Path × World σ) :=
  (Walk.targets s step.root step.selection).trail
    (fun r file => processOne s step.passes file >>= record s r) {}
    ((Run.log .debug .steps s!"{step.name}: walking {step.root.display}").after
      ((step.probes.forM (·.ensureAvailable s)).after w))

theorem probes_meets {s : Setting σ} {probes : List Tool} {w : World σ}
    (hprobes : ∀ tool ∈ probes, ∀ state tree, (s.runner tool.probeRequest state tree).tree = tree) :
    (probes.forM (·.ensureAvailable s)).Meets w fun ds _ w' =>
      text ds = "" ∧ captures ds = [] ∧ w'.tree = w.tree := by
  induction probes generalizing w with
  | nil => exact .pure ⟨rfl, rfl, rfl⟩
  | cons tool rest ih =>
    obtain ⟨hfirst, hrest⟩ := List.forall_mem_cons.mp hprobes
    rw [Run.forM_cons]
    refine (tool.ensureAvailable_meets s w _ rfl).bind ?_ ?_
    · intro ds _ w₁ hmeets
      obtain ⟨rfl, -, ht, -⟩ := hmeets
      refine (ih hrest).mono ?_
      intro ds r w₂ hmeets
      obtain ⟨htext, hcaptures, ht'⟩ := hmeets
      refine ⟨?_, ?_, ht'.trans (ht.trans (hfirst _ _))⟩
      · rw [text_append, htext]
        rfl
      · rw [captures_append, hcaptures]
        rfl
    · intro ds e w₁ hmeets
      obtain ⟨rfl, -, ht, -⟩ := hmeets
      exact ⟨rfl, rfl, ht.trans (hfirst _ _)⟩

/-- What a step is accountable for, given the files before and after it: those that it was to
format, what it did, and how it ended. A step that succeeds reports and writes down exactly the
files that differ. One that stops has written down exactly those that differ among the files done
before; it stopped at the file captured last, before the line of that file was complete, and the
files that come later are as they were. -/
def Accounts (before after : FileSystem) (files : List Path) (events : List Event) :
    Except Error StepReport → Prop
  | .ok report =>
    report = .formatted ⟨files.map before.absolute,
      (files.filter (before.differs after)).map before.absolute⟩ ∧
    text events = records before after files
  | .error _ =>
    ∃ done current later cut, files = done ++ Option.toList current ++ later ∧
      current = (captures events).getLast? ∧
      text events = records before after done ++ cut ∧
      (∀ f ∈ later, before.differs after f = false) ∧
      match current with
      | none => done = [] ∧ cut = ""
      | some f => ∃ missing, missing ≠ "" ∧ announcement (before.absolute f) = cut ++ missing

/-- Where no file that differs is, nothing was changed. -/
theorem content?_eq_of_not_differs {cwd : Working} {t t' : Tree} {files touched later : List Path}
    (hb : Walk.Batch ⟨t, cwd⟩ files) (hfiles : files = touched ++ later) (hs : t.SameShape t')
    (hothers : ∀ loc, (∀ f ∈ touched, ¬(FileSystem.mk t cwd).LeadsTo f loc) →
      t'.content? loc = t.content? loc) (loc : Location)
    (h : ∀ f ∈ files, (FileSystem.mk t cwd).LeadsTo f loc →
      (FileSystem.mk t cwd).differs ⟨t', cwd⟩ f = false) : t'.content? loc = t.content? loc := by
  by_cases hleads : ∃ f ∈ touched, (FileSystem.mk t cwd).LeadsTo f loc
  · obtain ⟨f, hf, hleads⟩ := hleads
    have hmem : f ∈ files := hfiles ▸ List.mem_append_left _ hf
    have hsame := h f hmem hleads
    rw [FileSystem.differs, Formatting.bytes?_of_mem hb hmem hs hleads,
      Formatting.bytes?_of_mem hb hmem (.refl t) hleads] at hsame
    simpa using hsame
  · exact hothers loc fun f hf hl => hleads ⟨f, hf, hl⟩

@[simp] theorem accounts_deeds {before after : FileSystem} {files : List Path}
    {events : List Event} {r : Except Error StepReport} :
    Accounts before after files (deeds events) r ↔ Accounts before after files events r := by
  cases r <;> simp [Accounts]

theorem Accounts.after_quiet {before after : FileSystem} {files : List Path} {ds ds' : List Event}
    {r : Except Error StepReport} (h : Accounts before after files ds' r) (htext : text ds = "")
    (hcaptures : captures ds = []) : Accounts before after files (ds ++ ds') r := by
  cases r <;> simpa [Accounts, htext, hcaptures] using h

theorem accounts_of_done {s : Setting σ} {t : Tree} {files : List Path} {r : FormatReport}
    {ds : List Event} {w : World σ} (h : Done s t files r ds w) :
    Accounts ⟨t, s.cwd⟩ ⟨w.tree, s.cwd⟩ files ds (.ok (.formatted r)) :=
  ⟨by rw [← h.processed, ← h.changed], h.text_eq⟩

theorem accounts_of_stopped {s : Setting σ} {t : Tree} {files done later : List Path}
    {current : Path} {ds : List Event} {w : World σ} {e : Error} (hb : Walk.Batch ⟨t, s.cwd⟩ files)
    (hfiles : files = done ++ current :: later) (h : Stopped s t done current ds w) :
    Accounts ⟨t, s.cwd⟩ ⟨w.tree, s.cwd⟩ files ds (.error e) := by
  obtain ⟨cut, missing, htext, hmissing, hline⟩ := h.text_eq
  have hsplit : files = done ++ [current] ++ later := by simpa using hfiles
  refine ⟨done, some current, later, cut, hsplit, h.captured.symm, htext, ?_, missing, hmissing,
    hline⟩
  intro f hf
  have hsame := Formatting.bytes?_of_later hb hsplit h.shape h.others hf
  simp [FileSystem.differs, hsame]

theorem run_meets {s : Setting σ} {step : FormatStep} {w : World σ} {files : List Path}
    (hb : Walk.Batch ⟨w.tree, s.cwd⟩ files)
    (hforeseen : (Walk.targets s step.root step.selection).Foreseen w.tree.SameShape files)
    (hprobes : ∀ tool ∈ step.probes, ∀ state tree,
      (s.runner tool.probeRequest state tree).tree = tree)
    (hcareful : ∀ x ∈ step.visits s w, Careful s x.1 step.passes x.2.runner x.2.tree) :
    (step.run s).Meets w fun ds r w' => w.tree.SameShape w'.tree ∧
      (∀ loc, (∀ f ∈ files, (FileSystem.mk w.tree s.cwd).LeadsTo f loc →
          (FileSystem.mk w.tree s.cwd).differs ⟨w'.tree, s.cwd⟩ f = false) →
        w'.tree.content? loc = w.tree.content? loc) ∧
      Accounts ⟨w.tree, s.cwd⟩ ⟨w'.tree, s.cwd⟩ files ds r := by
  refine (probes_meets hprobes).exactly.bind ?_ ?_
  · intro ds₁ _ w₁ hmeets
    obtain ⟨⟨htext₁, hcaptures₁, ht₁⟩, -, hw₁⟩ := hmeets
    refine (Run.idle_log _ _ _ w₁).exactly.bind ?_ ?_
    · intro ds₂ _ w₂ hmeets
      obtain ⟨⟨rfl, -, ht₂, -⟩, -, hw₂⟩ := hmeets
      rw [visits, hw₁, hw₂] at hcareful
      refine (Formatting.batch_meets hb hforeseen (ht₂.trans ht₁) hcareful).bind ?_ ?_
      · intro ds r w₃ hdone
        refine .pure ⟨hdone.shape, ?_, ?_⟩
        · exact content?_eq_of_not_differs hb (List.append_nil files).symm hdone.shape hdone.others
        · rw [List.nil_append, List.append_nil]
          exact (accounts_of_done hdone).after_quiet htext₁ hcaptures₁
      · intro ds e w₃ hmeets
        obtain ⟨done, current, later, hfiles, hstopped⟩ := hmeets
        have hsplit : files = done ++ [current] ++ later := by simpa using hfiles
        refine ⟨hstopped.shape, ?_, ?_⟩
        · exact content?_eq_of_not_differs hb hsplit hstopped.shape hstopped.others
        · exact (accounts_of_stopped hb hfiles hstopped).after_quiet htext₁ hcaptures₁
    · intro ds e w₂ hmeets
      obtain ⟨⟨-, ⟨_, hr⟩, -⟩, -, -⟩ := hmeets
      cases hr
  · intro ds e w₁ hmeets
    obtain ⟨⟨htext, hcaptures, ht⟩, -, -⟩ := hmeets
    refine ⟨ht ▸ .refl w.tree, fun loc _ => by rw [ht], ?_⟩
    refine ⟨[], none, files, "", rfl, ?_, ?_, ?_, rfl, rfl⟩
    · rw [hcaptures]
      rfl
    · rw [htext]
      rfl
    · intro f _
      simp [FileSystem.differs, ht]

/-- A formatting step on a tree without links, with probes that change nothing and passes that
change at most the bytes of the file they are run on, accounts for its files: the selected ones, in
the order of the walk. The tree keeps its shape, and only these files may differ. -/
theorem accounts_for_changes (s : Setting σ) (step : FormatStep) (w : World σ)
    (hlinks : w.tree.Linkless)
    (hprobes : ∀ tool ∈ step.probes, ∀ state tree,
      (s.runner tool.probeRequest state tree).tree = tree)
    (hcareful : ∀ x ∈ step.visits s w, Careful s x.1 step.passes x.2.runner x.2.tree) :
    ∃ files events,
      let before := FileSystem.mk w.tree s.cwd
      let after := FileSystem.mk ((step.run s).after w).tree s.cwd
      (Walk.targets s step.root step.selection).toList.outcome w = .ok files ∧
      ((step.run s).after w).journal = w.journal ++ events ∧
      before.tree.SameShape after.tree ∧
      (∀ loc, (∀ f ∈ files, before.LeadsTo f loc → before.differs after f = false) →
        after.tree.content? loc = before.tree.content? loc) ∧
      Accounts before after files events ((step.run s).outcome w) := by
  obtain ⟨files, hforeseen⟩ := Walk.foreseen_targets hlinks s step.root step.selection
  have hb : Walk.Batch ⟨w.tree, s.cwd⟩ files := Walk.batch_of_foreseen hlinks hforeseen w rfl
  obtain ⟨events, hj, hshape, hothers, haccounts⟩ := run_meets hb hforeseen hprobes hcareful
  exact ⟨files, events, hforeseen.toList w (.refl w.tree), hj, hshape, hothers,
    accounts_deeds.mp haccounts⟩

/-- A step on two files, with a tool that gives each of them the same bytes, and an output that
takes one line: it stops when the second of the two has been changed. -/
theorem accounts_for_broken_output :
    let a : Name := ⟨[97], by decide⟩
    let b : Name := ⟨[98], by decide⟩
    let cwd : Working := ⟨[], 0⟩
    let touch (tree : Tree) (file : Path) : Tree :=
      match (FileSystem.mk tree cwd).resolve .follow file with
      | .ok (.entry loc (.file _ executable)) => tree.put loc (.file [1] executable)
      | _ => tree
    let s : Setting Unit := ⟨cwd, fun request _ tree => ⟨.ok .success, [], (),
      match request.output, request.args with
      | .inherit, [file] => touch tree ⟨file⟩
      | _, _ => tree⟩, .lines 1⟩
    let step : FormatStep := ⟨"touch", ⟨[Bytes.slash]⟩, .names ["a", "b"], [.named "touch"],
      [.named "touch"]⟩
    let w : World Unit := ⟨⟨[(a, .file [] false), (b, .file [] false)], []⟩, (), []⟩
    let before := FileSystem.mk w.tree cwd
    let after := FileSystem.mk ((step.run s).after w).tree cwd
    w.tree.Linkless ∧
      (∀ tool ∈ step.probes, ∀ state tree,
        (s.runner tool.probeRequest state tree).tree = tree) ∧
      (∀ x ∈ step.visits s w, Careful s x.1 step.passes x.2.runner x.2.tree) ∧
      (∃ files events,
        (Walk.targets s step.root step.selection).toList.outcome w = .ok files ∧
        ((step.run s).after w).journal = w.journal ++ events ∧
        before.tree.SameShape after.tree ∧
        (∀ loc, (∀ f ∈ files, before.LeadsTo f loc → before.differs after f = false) →
          after.tree.content? loc = before.tree.content? loc) ∧
        Accounts before after files events ((step.run s).outcome w)) ∧
      Run.stop ((step.run s).outcome w) = some (.output (.other "broken pipe")) ∧
      before.differs after ⟨[47, 97]⟩ = true ∧ before.differs after ⟨[47, 98]⟩ = true := by
  intro a b cwd touch s step w before after
  have hlinks : w.tree.Linkless := Tree.linkless_of_files (by decide)
  have hprobes : ∀ tool ∈ step.probes, ∀ state tree,
      (s.runner tool.probeRequest state tree).tree = tree := fun _ _ _ _ => rfl
  have hcareful : ∀ x ∈ step.visits s w, Careful s x.1 step.passes x.2.runner x.2.tree := by
    intro x _
    refine Formatting.careful_of_rewrites (fun pass hpass state tree => ?_) _ _
    obtain rfl := List.mem_singleton.mp hpass
    have htree : (s.runner ((Tool.named "touch").workRequest x.1) state tree).tree =
        touch tree x.1 := rfl
    rw [htree]
    unfold touch
    split
    · rename_i loc content executable hr
      exact .put_file ⟨_, hr⟩ (FileSystem.node?_of_resolve hr)
    · exact .refl cwd x.1 tree
  have haccounts := accounts_for_changes s step w hlinks hprobes hcareful
  have hstop : Run.stop ((step.run s).outcome w) = some (.output (.other "broken pipe")) := by
    decide +kernel
  have hfirst : before.differs after ⟨[47, 97]⟩ = true := by decide +kernel
  have hsecond : before.differs after ⟨[47, 98]⟩ = true := by decide +kernel
  exact ⟨hlinks, hprobes, hcareful, haccounts, hstop, hfirst, hsecond⟩

end FormatStep

end Groom
