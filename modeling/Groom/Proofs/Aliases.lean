import Mathlib.Data.List.Induction
import Groom.Proofs.Invariant
import Groom.Proofs.Rewriting
import Groom.Proofs.SteadyWalk

/-! Files to which several paths lead. A walk comes to a file once for each path by which it finds
it, and the reports of formatting steps name the entry to which each of these paths leads. So they
name a file as often as there are paths to it, and links make a difference. -/
namespace Groom

variable {σ : Type}

theorem Path.isAbsolute_below (root : Path) (place : Location) :
    (root.below place).isAbsolute = root.isAbsolute := by
  induction place using List.reverseRecOn with
  | nil => rfl
  | append_singleton front n ih =>
    rw [below_concat, isAbsolute_child, ih]

namespace FileSystem

open Resolution

variable {fs : FileSystem} {p q : Path} {n : Name} {loc loc' : Location}

theorem pathOf_eq_below (loc : Location) : pathOf loc = (Path.mk [Bytes.slash]).below loc := by
  induction loc using List.reverseRecOn with
  | nil => rfl
  | append_singleton front n ih =>
    rw [Path.below_concat, ← ih, Path.child_eq]
    rcases List.eq_nil_or_concat front with rfl | ⟨before, m, hfront⟩
    · simp [pathOf, Path.ofNames]
    · rw [List.concat_eq_append] at hfront
      have hne : front ≠ [] := by simp [hfront]
      have hbytes : (pathOf front).bytes ≠ [] := by
        rw [ih]
        exact Path.below_bytes_ne_nil (by decide) front
      have hlast : (pathOf front).bytes.getLast? ≠ some Bytes.slash := by
        rw [ih, hfront, Path.below_concat]
        exact Path.getLast?_child _ m
      rw [if_neg (not_or.mpr ⟨hbytes, hlast⟩)]
      simp [pathOf, hne, Path.ofNames]

theorem pathOf_injective : Function.Injective pathOf := by
  intro loc loc' h
  rw [pathOf_eq_below, pathOf_eq_below] at h
  exact Path.below_injective _ h

theorem isAbsolute_pathOf (loc : Location) : (pathOf loc).isAbsolute = true := by
  unfold pathOf
  split
  · rfl
  · rename_i hne
    obtain ⟨n, rest, rfl⟩ := List.exists_cons_of_ne_nil hne
    simp [Path.isAbsolute, Path.ofNames]

theorem ofPath_of_leadsTo (h : fs.LeadsTo p loc) :
    ∃ node, ofPath fs.tree fs.cwd .follow p = .ok (.entry loc node) := by
  obtain ⟨node, hr⟩ := h
  unfold resolve at hr
  cases hv : FileSystem.validate p with
  | error e =>
    rw [hv] at hr
    cases hr
  | ok _ =>
    rw [hv] at hr
    exact ⟨node, hr⟩

/-- A path that leads to a place is reported as the path of that place, unless it is relative and
the working directory is gone. -/
theorem absolute_of_leadsTo (h : fs.LeadsTo p loc) :
    fs.absolute p = pathOf loc ∨
      fs.absolute p = p ∧ p.isAbsolute = false ∧ fs.here? = none := by
  obtain ⟨node, hr⟩ := ofPath_of_leadsTo h
  unfold absolute canonical
  by_cases hgone : !p.isAbsolute ∧ fs.here? = none
  · obtain ⟨hrelative, hhere⟩ := hgone
    rw [if_pos ⟨hrelative, hhere⟩]
    have hrelative : p.isAbsolute = false := by simpa using hrelative
    refine .inr ⟨?_, hrelative, hhere⟩
    simp [hrelative, hhere]
  · rw [if_neg hgone, hr]
    exact .inl rfl

/-- Two paths that lead to one entry. -/
def Aliases (fs : FileSystem) (p q : Path) : Prop := ∃ loc, fs.LeadsTo p loc ∧ fs.LeadsTo q loc

/-- Paths that are reported alike lead to one entry. -/
theorem aliases_of_absolute (hp : fs.LeadsTo p loc) (hq : fs.LeadsTo q loc')
    (h : fs.absolute p = fs.absolute q) : fs.Aliases p q := by
  obtain hp' | ⟨hp', hrelative, -⟩ := absolute_of_leadsTo hp
  · obtain hq' | ⟨hq', hrelative, -⟩ := absolute_of_leadsTo hq
    · have hloc : loc = loc' := pathOf_injective (hp'.symm.trans (h.trans hq'))
      exact ⟨loc, hp, hloc ▸ hq⟩
    · have habsolute := isAbsolute_pathOf loc
      rw [← hp', h, hq', hrelative] at habsolute
      cases habsolute
  · obtain hq' | ⟨hq', -, -⟩ := absolute_of_leadsTo hq
    · have habsolute := isAbsolute_pathOf loc'
      rw [← hq', ← h, hp', hrelative] at habsolute
      cases habsolute
    · have hpq : p = q := hp'.symm.trans (h.trans hq')
      exact ⟨loc, hp, hpq ▸ hp⟩

/-- Paths that lead to one entry are reported alike where they can be. -/
theorem absolute_eq_of_aliases (hp : p.isAbsolute = true ∨ fs.here? ≠ none)
    (hq : q.isAbsolute = true ∨ fs.here? ≠ none) (h : fs.Aliases p q) :
    fs.absolute p = fs.absolute q := by
  obtain ⟨loc, hp', hq'⟩ := h
  have there {p : Path} (hp : p.isAbsolute = true ∨ fs.here? ≠ none) (h : fs.LeadsTo p loc) :
      fs.absolute p = pathOf loc := by
    refine (absolute_of_leadsTo h).resolve_right ?_
    rintro ⟨-, hrelative, hgone⟩
    rcases hp with habsolute | hhere
    · cases habsolute.symm.trans hrelative
    · exact hhere hgone
  rw [there hp hp', there hq hq']

/-- An entry below a path that is no link stands in the directory to which the path leads. -/
theorem LeadsTo.child_of_plain (hp : p.bytes ≠ []) (h : fs.LeadsTo (p.child n) loc)
    (hplain : ∀ target, fs.linkStatus (p.child n) ≠ .ok (.link target)) :
    ∃ dir, fs.LeadsTo p dir ∧ loc = dir ++ [n] := by
  obtain ⟨node, hr⟩ := h
  obtain ⟨left, dir, es, hdir, hleads, hname⟩ := resolve_child (by decide) hp hr
  obtain habsent | ⟨found, hfind, hentry | ⟨-, hlink⟩⟩ := target_of_resolveFrom_name hdir hname
  · cases habsent
  · cases hentry
    exact ⟨dir, ⟨_, hleads⟩, rfl⟩
  -- what stands there would be the link that the path names
  · have hstatus : fs.status (p.child n) = .ok node := entry_eq_ok_iff.mpr (.inl ⟨loc, hr⟩)
    obtain ⟨named, hnamed, -⟩ := linkStatus_of_status hstatus
    obtain ⟨es', found', hes', hfind', heq | ⟨hne, -⟩⟩ := entry_child (by decide) hp hnamed
    · have hes : fs.status p = .ok (.directory es) := entry_eq_ok_iff.mpr (.inl ⟨dir, hleads⟩)
      obtain rfl : es = es' := Node.directory.inj (Except.ok.inj (hes.symm.trans hes'))
      obtain rfl : found = found' := Option.some.inj (hfind.symm.trans hfind')
      subst heq
      cases found with
      | link target => exact absurd hnamed (hplain target)
      | file | directory | device => cases hlink
    · exact absurd rfl hne

theorem LeadsTo.below_of_plain {root : Path} (hroot : root.bytes ≠ []) {place : Location}
    (h : fs.LeadsTo (root.below place) loc)
    (hplain : ∀ front, front ≠ [] → front <+: place → ∀ target,
      fs.linkStatus (root.below front) ≠ .ok (.link target)) :
    ∃ dir, fs.LeadsTo root dir ∧ loc = dir ++ place := by
  induction place using List.reverseRecOn generalizing loc with
  | nil => exact ⟨loc, h, (List.append_nil loc).symm⟩
  | append_singleton front n ih =>
    -- the last stretch is no link, so the entry stands where the front leads
    have hlast := hplain (front ++ [n]) (by simp) List.prefix_rfl
    rw [Path.below_concat] at h hlast
    obtain ⟨dir, hdir, rfl⟩ := h.child_of_plain (Path.below_bytes_ne_nil hroot front) hlast
    obtain ⟨up, hup, rfl⟩ := ih hdir fun before hne hbefore =>
      hplain before hne (hbefore.trans (List.prefix_append front [n]))
    exact ⟨up, hup, List.append_assoc ..⟩

end FileSystem

namespace Walk

variable {fs : FileSystem} {root : Path} {place place' : Location}

/-- Two places of a walk at which no link stands are not reached at one place of the tree. -/
theorem Reachable.eq_of_aliases (h : Reachable fs root place) (h' : Reachable fs root place')
    (hplain : ∀ target, fs.linkStatus (root.below place) ≠ .ok (.link target))
    (hplain' : ∀ target, fs.linkStatus (root.below place') ≠ .ok (.link target))
    (haliases : fs.Aliases (root.below place) (root.below place')) : place = place' := by
  have plain {place : Location} (h : Reachable fs root place)
      (hplain : ∀ target, fs.linkStatus (root.below place) ≠ .ok (.link target)) :
      ∀ front, front ≠ [] → front <+: place → ∀ target,
        fs.linkStatus (root.below front) ≠ .ok (.link target) := by
    intro front hne hfront target hlink
    -- above the place itself, the walk went through directories that it listed
    by_cases heq : front = place
    · exact hplain target (heq ▸ hlink)
    · obtain ⟨es, hes⟩ := h.above front hne hfront heq
      cases hes.symm.trans hlink
  obtain ⟨loc, hleads, hleads'⟩ := haliases
  obtain ⟨dir, hdir, rfl⟩ := hleads.below_of_plain h.rooted (plain h hplain)
  obtain ⟨dir', hdir', heq⟩ := hleads'.below_of_plain h.rooted (plain h' hplain')
  obtain rfl := hdir.unique hdir'
  exact List.append_cancel_left heq

/-- A survey finds no path twice. -/
theorem nodup_survey (s : Setting σ) (root : Path) (selection : Selection) (w : World σ) :
    (survey ⟨w.tree, s.cwd⟩ root selection).Nodup := by
  have hforeseen := foreseen_survey w.tree s root selection
  obtain ⟨found, w', hyields, hmembers, -⟩ := hforeseen.yields w (.refl w.tree)
  obtain ⟨⟨places, hplaces, hsorted, -⟩, -⟩ := places_of_finds hyields none (finds_targets w)
  rw [← hmembers]
  exact nodup_of_places hplaces hsorted

end Walk

namespace Formatting

variable {s : Setting σ} {passes : List Tool} {file : Path} {w : World σ} {t : Tree}

/-- Calls write nothing. -/
theorem calls_silent {f : Tool → Run σ Unit}
    (hf : ∀ tool, ∃ request verdict, Run.IsCall s (f tool) request verdict) (tools : List Tool)
    (w : World σ) : (tools.forM f).Meets w fun ds _ _ => text ds = "" := by
  induction tools generalizing w with
  | nil => exact .pure rfl
  | cons tool rest ih =>
    obtain ⟨request, verdict, hcall⟩ := hf tool
    rw [Run.forM_cons]
    refine (hcall w _ rfl).bind ?_ ?_
    · intro ds _ w₁ hmeets
      obtain ⟨rfl, -⟩ := hmeets
      refine (ih w₁).mono fun ds' _ _ htext => ?_
      rw [text_append, htext]
      rfl
    · intro ds e w₁ hmeets
      obtain ⟨rfl, -⟩ := hmeets
      rfl

/-- A file is reported by the path that it has after the last pass. -/
theorem processOne_reports (s : Setting σ) (passes : List Tool) (file : Path) (w : World σ) :
    (processOne s passes file).Meets w fun ds r w' => text ds = "" ∧
      ∀ o, r = .ok o → o.path = (FileSystem.mk w'.tree s.cwd).absolute file := by
  have hcaptured (content : Except IoError Bytes) (events : List Event) :
      text (.captured file content :: events) = text events := rfl
  have hpasses := calls_silent (fun pass => ⟨_, _, pass.isCall_work s file⟩) passes
  refine (Run.capture_meets s file w).bind ?_ ?_
  · intro ds before w₁ hmeets
    obtain ⟨rfl, -⟩ := hmeets
    refine (hpasses w₁).bind ?_ ?_
    · intro ds' _ w₂ htext
      refine (Run.capture_meets s file w₂).bind ?_ ?_
      · intro ds'' after w₃ hmeets
        obtain ⟨rfl, -⟩ := hmeets
        refine Run.log_bind_meets fun w₄ hs => Run.files_bind_meets (.pure ⟨?_, ?_⟩)
        · simp [hcaptured, htext]
        · intro o ho
          cases ho
          rfl
      · intro ds'' e w₃ hmeets
        obtain ⟨rfl, -⟩ := hmeets
        refine ⟨?_, nofun⟩
        simp [hcaptured, htext]
    · intro ds' e w₂ htext
      refine ⟨?_, nofun⟩
      simp [hcaptured, htext]
  · intro ds e w₁ hmeets
    obtain ⟨rfl, -⟩ := hmeets
    exact ⟨rfl, nofun⟩

/-- What holds of a batch when some files are done, whatever calls do to the bytes of files. -/
structure Listed (s : Setting σ) (t : Tree) (done : List Path) (r : FormatReport)
    (ds : List Event) (w : World σ) : Prop where
  layout : t.SameLayout w.tree
  processed : r.processed = done.map (FileSystem.mk t s.cwd).absolute
  changed : r.changed.Sublist r.processed
  text_eq : text ds = String.join (r.changed.map announcement)

theorem Listed.add {done : List Path} {r : FormatReport} {ds ds' : List Event} {w' : World σ}
    (h : Listed s t done r ds w) {o : FileOutcome} (hlayout : t.SameLayout w'.tree)
    (hpath : o.path = (FileSystem.mk t s.cwd).absolute file)
    (htext : text ds' = if o.change = .changed then announcement o.path else "") :
    Listed s t (done ++ [file]) (r.add o) (ds ++ ds') w' := by
  have hprocessed : (r.add o).processed = r.processed ++ [o.path] := rfl
  refine ⟨hlayout, ?_, ?_, ?_⟩
  · rw [hprocessed, h.processed, hpath, List.map_append]
    rfl
  · rw [hprocessed]
    unfold FormatReport.add
    split
    · exact h.changed.append (List.Sublist.refl _)
    · exact h.changed.trans (List.sublist_append_left _ _)
  · rw [text_append, htext, h.text_eq]
    unfold FormatReport.add
    split <;> simp [String.join_append, String.join_cons, String.join_nil]

/-- One file of a batch, and its line. -/
theorem listed_step (hcalls : s.Preserves fun _ _ tree => t.SameLayout tree) {done : List Path}
    {r : FormatReport} {ds : List Event} (h : Listed s t done r ds w) :
    (processOne s passes file >>= record s r).Meets w fun ds' out w' =>
      Run.Ends (Listed s t (done ++ [file])) (fun _ _ _ => True) (ds ++ ds') out w' := by
  have hkeeps := Run.Keeps.processOne hcalls passes file w [] h.layout
  refine ((processOne_reports s passes file w).and hkeeps).bind ?_ ?_
  · intro ds₁ o w₁ hmeets
    obtain ⟨⟨htext, hpath⟩, hlayout⟩ := hmeets
    have hpath' : o.path = (FileSystem.mk t s.cwd).absolute file := by
      rw [hpath o rfl, FileSystem.absolute_layout hlayout]
    refine (record_meets s r o w₁).mono fun ds₂ out w₂ hmeets => ?_
    obtain ⟨hs, -, hout⟩ := hmeets
    cases out with
    | error e => trivial
    | ok r' =>
      obtain ⟨rfl, htext'⟩ := hout
      refine h.add (hs.1 ▸ hlayout) hpath' ?_
      rw [text_append, htext, String.empty_append]
      exact htext'
  · intro _ _ _ _
    trivial

end Formatting

namespace FormatStep

open Formatting (Listed announcement)

theorem listed_batch {s : Setting σ} {t : Tree}
    (hcalls : s.Preserves fun _ _ tree => t.SameLayout tree) (passes : List Tool)
    {flow : Flow (Run σ) Path} {files : List Path}
    (hflow : flow.Foreseen t.SameLayout files) (w : World σ) (ht : t.SameLayout w.tree) :
    (Formatting.report s (flow.mapM (Formatting.processOne s passes))).Meets w fun ds r w' =>
      Run.Ends (Listed s t files) (fun _ _ _ => True) ds r w' := by
  unfold Formatting.report
  rw [Flow.foldM_mapM]
  have hstart : Listed s t [] {} [] w :=
    ⟨ht, rfl, List.Sublist.refl _, by rw [text_nil]; exact String.join_nil.symm⟩
  refine (hflow.foldM_meets _ (fun _ _ => True) (Listed s t) (fun _ _ _ _ _ _ => True) ?_ ?_ ?_ []
    (List.nil_append files).symm {} [] w (fun _ _ => trivial) hstart).mono ?_
  · exact fun _ _ _ _ h => h.layout
  · intro done r ds w₁ w₂ hs h
    exact ⟨hs.1 ▸ h.layout, h.processed, h.changed, h.text_eq⟩
  · intro done file later r ds w' _ _ h
    refine (Formatting.listed_step hcalls h).mono fun ds' out w'' hends => ?_
    cases out <;> exact hends
  · intro ds r w' hends
    cases r with
    | ok report => exact hends
    | error e => trivial

/-- The report of a step lists the files that a survey finds, as long as calls change no more than
the bytes of files. -/
theorem listed_of_run (s : Setting σ) (step : FormatStep) (w : World σ)
    (hcalls : ∀ request state (tree : Tree),
      tree.SameLayout (s.runner request state tree).tree) :
    (step.run s).Meets w fun ds r w' => ∀ report, r = .ok (.formatted report) →
      Listed s w.tree (Walk.survey ⟨w.tree, s.cwd⟩ step.root step.selection) report ds w' := by
  have hpreserves : s.Preserves fun _ _ tree => w.tree.SameLayout tree :=
    fun request _ state tree h => h.trans (hcalls request state tree)
  have hsilent := Formatting.calls_silent (fun tool => ⟨_, _, tool.isCall_probe s⟩) step.probes w
  have hprobed := Run.Keeps.forM step.probes (fun tool => Run.Keeps.probe hpreserves tool) w []
    (.refl w.tree)
  refine (hsilent.and hprobed).bind ?_ fun _ _ _ _ _ => nofun
  intro ds₁ _ w₁ hmeets
  obtain ⟨htext, hlayout⟩ := hmeets
  refine Run.log_bind_meets fun w₂ hs => ?_
  have hforeseen := Walk.foreseen_survey w.tree s step.root step.selection
  refine (listed_batch hpreserves step.passes hforeseen w₂ (hs.1 ▸ hlayout)).bind ?_ ?_
  · intro ds₂ report w₃ hlisted
    refine .pure ?_
    intro report' hreport
    cases hreport
    rw [List.append_nil]
    refine ⟨hlisted.layout, hlisted.processed, hlisted.changed, ?_⟩
    rw [text_append, htext, String.empty_append]
    exact hlisted.text_eq
  · intro _ _ _ _ _
    exact nofun

namespace Sample

/-- A tool that adds a byte to the file it is run on. -/
def append (tree : Tree) (file : Path) : Tree :=
  match (FileSystem.mk tree ⟨[], 0⟩).resolve .follow file with
  | .ok (.entry loc (.file content executable)) => tree.put loc (.file (content ++ [33]) executable)
  | _ => tree

def setting : Setting Unit where
  cwd := ⟨[], 0⟩
  runner := fun request _ tree => ⟨.ok .success, [], (), match request.output, request.args with
    | .inherit, [file] => append tree ⟨file⟩
    | _, _ => tree⟩
  writer := .willing

def step : FormatStep :=
  ⟨"append", ⟨[Bytes.slash]⟩, .names ["a", "b"], [.named "append"], [.named "append"]⟩

/-- A file `a` and a link `b` that leads to it. -/
def world : World Unit :=
  ⟨⟨[(⟨[97], by decide⟩, .file [120] false), (⟨[98], by decide⟩, .link [97])], []⟩, (), []⟩

theorem append_layout (tree : Tree) (file : Path) : tree.SameLayout (append tree file) := by
  unfold append
  split
  · rename_i loc content executable hr
    exact .put_file (FileSystem.node?_of_resolve hr)
  · exact .refl tree

theorem setting_layout (request : Request) (state : Unit) (tree : Tree) :
    tree.SameLayout (setting.runner request state tree).tree := by
  dsimp only [setting]
  split
  · exact append_layout tree _
  · exact .refl tree

end Sample

/-- A step whose calls change no more than the bytes of files reports a file once for each path by
which the walk comes to it. No file is reported twice if no two of these paths lead to one entry,
above all if none of them is a link; but if two of them do, the file is reported twice, and with a
line each time that it was changed. -/
theorem reports_each_path (s : Setting σ) (step : FormatStep) (w : World σ) (report : FormatReport)
    (hcalls : ∀ request state (tree : Tree),
      tree.SameLayout (s.runner request state tree).tree)
    (hrun : (step.run s).outcome w = .ok (.formatted report)) :
    let fs := FileSystem.mk w.tree s.cwd
    ∃ files events,
      (Walk.targets s step.root step.selection).toList.outcome w = .ok files ∧ files.Nodup ∧
      ((step.run s).after w).journal = w.journal ++ events ∧
      report.processed = files.map fs.absolute ∧ report.changed.Sublist report.processed ∧
      text events = String.join (report.changed.map announcement) ∧
      (files.Pairwise (fun p q => ¬fs.Aliases p q) → report.processed.Nodup) ∧
      (step.root.isAbsolute = true ∨ fs.here? ≠ none →
        report.processed.Nodup → files.Pairwise fun p q => ¬fs.Aliases p q) ∧
      ((∀ p ∈ files, ∀ target, fs.linkStatus p ≠ .ok (.link target)) →
        report.processed.Nodup) := by
  intro fs
  let files := Walk.survey fs step.root step.selection
  have hforeseen := Walk.foreseen_survey w.tree s step.root step.selection
  obtain ⟨events, hj, hlisted⟩ := listed_of_run s step w hcalls
  obtain ⟨-, hprocessed, hchanged, htext⟩ := hlisted report hrun
  rw [text_deeds] at htext
  have hleads (p : Path) (hp : p ∈ files) : ∃ loc, fs.LeadsTo p loc := by
    obtain ⟨loc, -, hloc, -⟩ := FileSystem.isFile_iff.mp (Walk.isFile_of_mem_survey hp)
    exact ⟨loc, hloc⟩
  have hnodup : files.Nodup := Walk.nodup_survey s step.root step.selection w
  -- reported paths are distinct if and only if no two of the walked ones are reported alike
  have hreported : report.processed.Nodup ↔
      files.Pairwise fun p q => fs.absolute p ≠ fs.absolute q := by
    rw [hprocessed]
    exact List.pairwise_map
  have hdistinct : files.Pairwise (fun p q => ¬fs.Aliases p q) → report.processed.Nodup := by
    intro hpairs
    refine hreported.mpr (hpairs.imp_of_mem fun hp hq hnot heq => hnot ?_)
    obtain ⟨loc, hloc⟩ := hleads _ hp
    obtain ⟨loc', hloc'⟩ := hleads _ hq
    exact FileSystem.aliases_of_absolute hloc hloc' heq
  refine ⟨files, events, hforeseen.toList w (.refl w.tree), hnodup, hj, hprocessed, hchanged,
    htext, hdistinct, ?_, ?_⟩
  · intro hthere hprocessed
    have habsolute (p : Path) (hp : p ∈ files) : p.isAbsolute = true ∨ fs.here? ≠ none := by
      obtain ⟨place, rfl, hreachable⟩ := Walk.of_mem_survey hp
      rwa [Path.isAbsolute_below]
    refine (hreported.mp hprocessed).imp_of_mem fun hp hq hne haliases => hne ?_
    exact FileSystem.absolute_eq_of_aliases (habsolute _ hp) (habsolute _ hq) haliases
  · intro hplain
    refine hdistinct (hnodup.imp_of_mem fun hp hq hne haliases => hne ?_)
    obtain ⟨place, rfl, hreachable⟩ := Walk.of_mem_survey hp
    obtain ⟨place', rfl, hreachable'⟩ := Walk.of_mem_survey hq
    rw [hreachable.eq_of_aliases hreachable' (hplain _ hp) (hplain _ hq) haliases]

/-- The sample succeeds and reports its file twice, so the walk came to it by two paths. -/
theorem link_reports_file_again :
    let s := Sample.setting
    let fs := FileSystem.mk Sample.world.tree s.cwd
    let report : FormatReport := ⟨[⟨[47, 97]⟩, ⟨[47, 97]⟩], [⟨[47, 97]⟩, ⟨[47, 97]⟩]⟩
    (∀ request state (tree : Tree), tree.SameLayout (s.runner request state tree).tree) ∧
    (Sample.step.run s).outcome Sample.world = .ok (.formatted report) ∧
    ∃ files : List Path, report.processed = files.map fs.absolute ∧
      ¬files.Pairwise fun p q => ¬fs.Aliases p q := by
  intro s fs report
  have hrun : (Sample.step.run s).outcome Sample.world = .ok (.formatted report) := by
    decide +kernel
  obtain ⟨files, events, -, -, -, hprocessed, -, -, hdistinct, -⟩ :=
    reports_each_path s Sample.step Sample.world report Sample.setting_layout hrun
  have htwice : ¬report.processed.Nodup := by decide
  exact ⟨Sample.setting_layout, hrun, files, hprocessed, fun hpairs => htwice (hdistinct hpairs)⟩

/-- All calls succeed and change at most the bytes of files, and yet one file is reported twice,
with a line each time. -/
theorem link_breaks_uniqueness :
    let s := Sample.setting
    (∀ request state (tree : Tree), (s.runner request state tree).answer = .ok .success ∧
      tree.SameLayout (s.runner request state tree).tree) ∧
    (∃ report, (Sample.step.run s).outcome Sample.world = .ok (.formatted report) ∧
      ¬report.processed.Nodup ∧ ¬report.changed.Nodup) ∧
    ((Sample.step.run s).after Sample.world).report = "Formatted: /a\nFormatted: /a\n" := by
  intro s
  let report : FormatReport := ⟨[⟨[47, 97]⟩, ⟨[47, 97]⟩], [⟨[47, 97]⟩, ⟨[47, 97]⟩]⟩
  have hrun : (Sample.step.run s).outcome Sample.world = .ok (.formatted report) := by
    decide +kernel
  refine ⟨fun request state tree => ⟨rfl, Sample.setting_layout request state tree⟩, ?_, ?_⟩
  · exact ⟨report, hrun, by decide, by decide⟩
  · decide +kernel

end FormatStep

end Groom
