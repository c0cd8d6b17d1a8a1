import Mathlib.Data.List.Forall2
import Groom.Step
import Groom.Proofs.Rewriting
import Groom.Proofs.SteadyWalk

/-! Formatting twice. The passes of a step each give a file new content, which depends on its old
content alone. A file to which several links lead is worked on several times in one run; if the
passes together are idempotent, it is settled after the first time, and a second run finds nothing
to change. -/
namespace Groom

open Run (Ends)

variable {σ : Type}

/-- The pieces of text that the report took. -/
def pieces (events : List Event) : List String := events.filterMap Event.piece?

@[simp] theorem pieces_append (xs ys : List Event) : pieces (xs ++ ys) = pieces xs ++ pieces ys :=
  List.filterMap_append

@[simp] theorem pieces_deeds (events : List Event) : pieces (deeds events) = pieces events := by
  refine filterMap_deeds (fun e he => ?_) events
  cases e <;> first | rfl | cases he

/-- The second tree is the first with other content in the file at a place. -/
structure Tree.Replaces (t t' : Tree) (loc : Location) (content : Bytes) : Prop
    extends t.SameLayout t' where
  there : t'.content? loc = some content
  others : ∀ loc', loc' ≠ loc → t'.content? loc' = t.content? loc'

namespace Tree.Replaces

variable {t t' t'' : Tree} {loc : Location} {content content' : Bytes}

theorem refl (h : t.content? loc = some content) : t.Replaces t loc content :=
  ⟨.refl t, h, fun _ _ => rfl⟩

theorem trans (h : t.Replaces t' loc content) (h' : t'.Replaces t'' loc content') :
    t.Replaces t'' loc content' where
  toSameLayout := h.toSameLayout.trans h'.toSameLayout
  there := h'.there
  others := fun loc' hne => (h'.others loc' hne).trans (h.others loc' hne)

/-- A file that gets its own content again changes nothing. -/
theorem content?_eq (h : t.Replaces t' loc content) (hsame : t.content? loc = some content)
    (loc' : Location) : t'.content? loc' = t.content? loc' := by
  by_cases hloc : loc' = loc
  · rw [hloc, h.there, hsame]
  · exact h.others loc' hloc

theorem put_file {x x' : Bool} (h : t.node? loc = some (.file content x)) :
    t.Replaces (t.put loc (.file content' x')) loc content' where
  toSameLayout := .put_file h
  there := Tree.content?_put_self h
  others _ hne := Tree.content?_put_file h hne

end Tree.Replaces

/-- Whatever its state and the tree are, the runner succeeds with a pass on a file, and the pass
does no more than to make this change to the content of the file to which its target leads. -/
def Setting.Applies (s : Setting σ) (pass : Tool) (change : Bytes → Bytes) : Prop :=
  ∀ file state tree loc content, (FileSystem.mk tree s.cwd).LeadsTo file loc →
    tree.content? loc = some content →
    (s.runner (pass.workRequest file) state tree).answer = .ok .success ∧
      tree.Replaces (s.runner (pass.workRequest file) state tree).tree loc (change content)

/-- All changes made one after another, the first one first. -/
def composite (changes : List (Bytes → Bytes)) (content : Bytes) : Bytes :=
  changes.foldl (fun content change => change content) content

namespace Formatting

variable {s : Setting σ} {passes : List Tool} {changes : List (Bytes → Bytes)} {file : Path}
  {loc : Location} {content : Bytes} {w : World σ}

theorem passes_apply (happlies : List.Forall₂ s.Applies passes changes)
    (hleads : (FileSystem.mk w.tree s.cwd).LeadsTo file loc)
    (hcontent : w.tree.content? loc = some content) :
    (passes.forM fun pass => pass.invokeChecked s file).Meets w fun ds r w' =>
      pieces ds = [] ∧ r = .ok () ∧ w.tree.Replaces w'.tree loc (composite changes content) := by
  -- each pass works on the content that the one before it left
  induction happlies generalizing w content with
  | nil => exact .pure ⟨rfl, rfl, .refl hcontent⟩
  | @cons pass change passes changes hpass hrest ih =>
    obtain ⟨hanswer, hreplaces⟩ := hpass file w.runner w.tree loc content hleads hcontent
    rw [Run.forM_cons]
    refine (pass.invokeChecked_meets s file w _ rfl).bind ?_ ?_
    · intro ds _ w₁ hmeets
      obtain ⟨rfl, -, htree, -⟩ := hmeets
      rw [← htree] at hreplaces
      refine (ih (hleads.layout hreplaces.toSameLayout) hreplaces.there).mono fun ds' r w₂ h => ?_
      obtain ⟨hpieces, hr, hreplaces'⟩ := h
      refine ⟨?_, hr, hreplaces.trans hreplaces'⟩
      rw [pieces_append, hpieces]
      rfl
    · intro ds e w₁ hmeets
      obtain ⟨-, hverdict, -⟩ := hmeets
      rw [hanswer] at hverdict
      cases hverdict

theorem processOne_applies (happlies : List.Forall₂ s.Applies passes changes)
    (hleads : (FileSystem.mk w.tree s.cwd).LeadsTo file loc)
    (hcontent : w.tree.content? loc = some content) :
    (processOne s passes file).Meets w fun ds r w' =>
      pieces ds = [] ∧ w.tree.Replaces w'.tree loc (composite changes content) ∧
      r = .ok ⟨(FileSystem.mk w.tree s.cwd).absolute file,
        if content = composite changes content then .unchanged else .changed⟩ := by
  refine (Run.capture_meets s file w).bind ?_ ?_
  · intro ds before w₁ hmeets
    obtain ⟨rfl, hbefore, hs⟩ := hmeets
    rw [FileSystem.read_of_leadsTo hleads hcontent] at hbefore
    obtain rfl := Except.ok.inj hbefore
    rw [← hs.1] at hleads hcontent
    refine (passes_apply happlies hleads hcontent).bind ?_ ?_
    · intro ds' _ w₂ hmeets
      obtain ⟨hpieces, -, hreplaces⟩ := hmeets
      have hleads' := hleads.layout hreplaces.toSameLayout
      refine (Run.capture_meets s file w₂).bind ?_ ?_
      · intro ds'' after w₃ hmeets
        obtain ⟨rfl, hafter, hs'⟩ := hmeets
        rw [FileSystem.read_of_leadsTo hleads' hreplaces.there] at hafter
        obtain rfl := Except.ok.inj hafter
        refine Run.log_bind_meets fun w₄ hs'' => Run.files_bind_meets (.pure ?_)
        have htree : w₄.tree = w₂.tree := hs''.1.trans hs'.1
        rw [htree, ← hs.1, FileSystem.absolute_layout hreplaces.toSameLayout]
        refine ⟨?_, hreplaces, rfl⟩
        simp only [pieces_append, hpieces]
        rfl
      · intro ds'' e w₃ hmeets
        obtain ⟨-, hafter, -⟩ := hmeets
        rw [FileSystem.read_of_leadsTo hleads' hreplaces.there] at hafter
        cases hafter
    · intro ds' e w₂ hmeets
      obtain ⟨-, hr, -⟩ := hmeets
      cases hr
  · intro ds e w₁ hmeets
    obtain ⟨-, hbefore, -⟩ := hmeets
    rw [FileSystem.read_of_leadsTo hleads hcontent] at hbefore
    cases hbefore

/-- A change makes no difference to the files to which these paths lead. -/
def Settled (s : Setting σ) (change : Bytes → Bytes) (t : Tree) (files : List Path) : Prop :=
  ∀ f ∈ files, ∀ loc content, (FileSystem.mk t s.cwd).LeadsTo f loc →
    t.content? loc = some content → change content = content

/-- A file is settled once the change was made to it, and other paths to it are then settled too. -/
theorem Settled.replaces {change : Bytes → Bytes} (hidem : ∀ c, change (change c) = change c)
    {t t' : Tree} {done : List Path} (h : Settled s change t done)
    (hleads : (FileSystem.mk t s.cwd).LeadsTo file loc)
    (hreplaces : t.Replaces t' loc (change content)) :
    Settled s change t' (done ++ [file]) := by
  intro f hf loc' content' hleads' hcontent'
  have hbefore : (FileSystem.mk t s.cwd).LeadsTo f loc' :=
    hleads'.layout hreplaces.toSameLayout.symm
  by_cases hloc : loc' = loc
  · rw [hloc, hreplaces.there] at hcontent'
    obtain rfl := Option.some.inj hcontent'
    exact hidem content
  · rw [hreplaces.others loc' hloc] at hcontent'
    obtain hdone | hfile := List.mem_append.mp hf
    · exact h f hdone loc' content' hbefore hcontent'
    · obtain rfl := List.mem_singleton.mp hfile
      exact absurd (hbefore.unique hleads) hloc

section

variable {t : Tree} {flow : Flow (Run σ) Path} {files : List Path}

theorem leadsTo_of_isFile {t' : Tree} (h : t.SameLayout t')
    (hfile : (FileSystem.mk t s.cwd).isFile file = true) : ∃ loc content,
      (FileSystem.mk t' s.cwd).LeadsTo file loc ∧ t'.content? loc = some content := by
  rw [← FileSystem.isFile_layout h] at hfile
  exact FileSystem.isFile_iff.mp hfile

/-- A batch that comes to its end leaves its files settled. -/
theorem report_settles (happlies : List.Forall₂ s.Applies passes changes)
    (hidem : ∀ c, composite changes (composite changes c) = composite changes c)
    (hflow : flow.Foreseen t.SameLayout files)
    (hfiles : ∀ f ∈ files, (FileSystem.mk t s.cwd).isFile f = true) (hw : t.SameLayout w.tree) :
    (report s (flow.mapM (processOne s passes))).Meets w fun _ r w' => ∀ report, r = .ok report →
      report.processed = files.map (FileSystem.mk t s.cwd).absolute ∧
      t.SameLayout w'.tree ∧ Settled s (composite changes) w'.tree files := by
  let inv (done : List Path) (r : FormatReport) (_ : List Event) (w : World σ) : Prop :=
    r.processed = done.map (FileSystem.mk t s.cwd).absolute ∧
      t.SameLayout w.tree ∧ Settled s (composite changes) w.tree done
  unfold report
  rw [Flow.foldM_mapM]
  have hloop := hflow.foldM_meets (fun r file => processOne s passes file >>= record s r)
    (fun _ _ => True) inv (fun _ _ _ _ _ _ => True) (fun _ _ _ _ h => h.2.1) ?_ ?_ []
    (List.nil_append files).symm {} [] w (fun _ _ => trivial) ⟨rfl, hw, nofun⟩
  · refine hloop.mono fun ds r w' hends report hr => ?_
    subst hr
    exact hends
  · intro done r ds w₁ w₂ hs h
    obtain ⟨hprocessed, hlayout, hsettled⟩ := h
    rw [← hs.1] at hlayout hsettled
    exact ⟨hprocessed, hlayout, hsettled⟩
  · intro done file later r ds w₁ hsplit _ h
    obtain ⟨hprocessed, hlayout, hsettled⟩ := h
    have hfile : file ∈ files := hsplit ▸ List.mem_append_right done List.mem_cons_self
    obtain ⟨loc, content, hleads, hcontent⟩ := leadsTo_of_isFile hlayout (hfiles file hfile)
    refine (processOne_applies happlies hleads hcontent).bind ?_ fun _ _ _ _ => trivial
    intro ds' o w₂ hmeets
    obtain ⟨-, hreplaces, ho⟩ := hmeets
    obtain rfl := Except.ok.inj ho
    refine (record_meets s r _ w₂).mono fun ds'' out w₃ hmeets => ?_
    obtain ⟨hs, -, hout⟩ := hmeets
    cases out with
    | error e => trivial
    | ok r' =>
      obtain ⟨rfl, -⟩ := hout
      rw [← hs.1] at hreplaces
      refine ⟨?_, hlayout.trans hreplaces.toSameLayout,
        hsettled.replaces hidem hleads hreplaces⟩
      simp [FormatReport.add, hprocessed, FileSystem.absolute_layout hlayout]

/-- A batch of settled files changes none of them. -/
theorem report_of_settled (happlies : List.Forall₂ s.Applies passes changes)
    (hflow : flow.Foreseen t.SameLayout files)
    (hfiles : ∀ f ∈ files, (FileSystem.mk t s.cwd).isFile f = true) {t' : Tree} (ht' : w.tree = t')
    (hw : t.SameLayout t') (hsettled : Settled s (composite changes) t' files) :
    (report s (flow.mapM (processOne s passes))).Meets w fun ds r w' => pieces ds = [] ∧
      r = .ok ⟨files.map (FileSystem.mk t s.cwd).absolute, []⟩ ∧
      t'.SameLayout w'.tree ∧ ∀ loc, w'.tree.content? loc = t'.content? loc := by
  subst ht'
  let inv (done : List Path) (r : FormatReport) (ds : List Event) (w' : World σ) : Prop :=
    pieces ds = [] ∧ r = ⟨done.map (FileSystem.mk t s.cwd).absolute, []⟩ ∧
      w.tree.SameLayout w'.tree ∧ ∀ loc, w'.tree.content? loc = w.tree.content? loc
  unfold report
  rw [Flow.foldM_mapM]
  have hloop := hflow.foldM_meets (fun r file => processOne s passes file >>= record s r)
    (fun _ _ => True) inv (fun _ _ _ _ _ _ => False) (fun _ _ _ _ h => hw.trans h.2.2.1) ?_ ?_ []
    (List.nil_append files).symm {} [] w (fun _ _ => trivial)
    ⟨rfl, rfl, .refl w.tree, fun _ => rfl⟩
  · refine hloop.mono fun ds r w' hends => ?_
    cases r with
    | ok report =>
      obtain ⟨hpieces, rfl, hrest⟩ := hends
      exact ⟨hpieces, rfl, hrest⟩
    | error e =>
      obtain ⟨_, _, _, -, hfalse⟩ := hends
      exact hfalse.elim
  · intro done r ds w₁ w₂ hs h
    obtain ⟨hpieces, hr, hlayout, hcontents⟩ := h
    rw [← hs.1] at hlayout hcontents
    exact ⟨hpieces, hr, hlayout, hcontents⟩
  · intro done file later r ds w₁ hsplit _ h
    obtain ⟨hpieces, rfl, hlayout, hcontents⟩ := h
    have hfile : file ∈ files := hsplit ▸ List.mem_append_right done List.mem_cons_self
    obtain ⟨loc, content, hleads, hcontent⟩ :=
      leadsTo_of_isFile (hw.trans hlayout) (hfiles file hfile)
    -- its content is what it was when the batch began, and so it is settled
    have hsame : composite changes content = content :=
      hsettled file hfile loc content (hleads.layout hlayout.symm) (hcontents loc ▸ hcontent)
    refine (processOne_applies happlies hleads hcontent).bind ?_ ?_
    · intro ds' o w₂ hmeets
      obtain ⟨hpieces', hreplaces, ho⟩ := hmeets
      obtain rfl := Except.ok.inj ho
      rw [hsame] at hreplaces ⊢
      rw [if_pos rfl]
      refine .pure ⟨?_, ?_, hlayout.trans hreplaces.toSameLayout, fun loc' => ?_⟩
      · simp [hpieces, hpieces']
      · simp [FormatReport.add, FileSystem.absolute_layout (hw.trans hlayout)]
      · rw [hreplaces.content?_eq hcontent, hcontents]
    · intro ds' e w₂ hmeets
      obtain ⟨-, -, ho⟩ := hmeets
      cases ho

end

end Formatting

namespace FormatStep

open Formatting (Settled processOne)

variable {s : Setting σ} {step : FormatStep} {w : World σ}

theorem probes_succeed {probes : List Tool} (hprobes : ∀ tool ∈ probes, ∀ state tree,
      (s.runner tool.probeRequest state tree).answer = .ok .success ∧
        (s.runner tool.probeRequest state tree).tree = tree) :
    (probes.forM (·.ensureAvailable s)).Meets w fun ds r w' =>
      pieces ds = [] ∧ r = .ok () ∧ w'.tree = w.tree := by
  induction probes generalizing w with
  | nil => exact .pure ⟨rfl, rfl, rfl⟩
  | cons tool rest ih =>
    obtain ⟨hfirst, hrest⟩ := List.forall_mem_cons.mp hprobes
    obtain ⟨hanswer, htree⟩ := hfirst w.runner w.tree
    rw [Run.forM_cons]
    refine (tool.ensureAvailable_meets s w _ rfl).bind ?_ ?_
    · intro ds _ w₁ hmeets
      obtain ⟨rfl, -, htree₁, -⟩ := hmeets
      refine (ih hrest).mono fun ds' r w₂ h => ?_
      obtain ⟨hpieces, hr, htree₂⟩ := h
      refine ⟨?_, hr, htree₂.trans (htree₁.trans htree)⟩
      rw [pieces_append, hpieces]
      rfl
    · intro ds e w₁ hmeets
      obtain ⟨-, hverdict, -⟩ := hmeets
      rw [hanswer] at hverdict
      cases hverdict

/-- With probes that succeed and change nothing, a step does what its batch does. -/
theorem run_of_report {post : List Event → Except Error FormatReport → World σ → Prop}
    (hprobes : ∀ tool ∈ step.probes, ∀ state tree,
      (s.runner tool.probeRequest state tree).answer = .ok .success ∧
        (s.runner tool.probeRequest state tree).tree = tree)
    (hreport : ∀ w' : World σ, w'.tree = w.tree → (Formatting.report s
      ((Walk.targets s step.root step.selection).mapM (processOne s step.passes))).Meets w' post) :
    (step.run s).Meets w fun ds r w' => ∃ ds' r', pieces ds = pieces ds' ∧
      r = r'.map .formatted ∧ post ds' r' w' := by
  refine (probes_succeed hprobes).bind ?_ ?_
  · intro ds₁ _ w₁ hmeets
    obtain ⟨hpieces, -, htree⟩ := hmeets
    refine Run.log_bind_meets fun w₂ hs => ?_
    refine (hreport w₂ (hs.1.trans htree)).bind ?_ ?_
    · intro ds report w₃ hpost
      refine .pure ⟨ds, .ok report, ?_, rfl, hpost⟩
      simp [hpieces]
    · intro ds e w₃ hpost
      refine ⟨ds, .error e, ?_, rfl, hpost⟩
      simp [hpieces]
  · intro ds e w₁ hmeets
    obtain ⟨-, hr, -⟩ := hmeets
    cases hr

/-- Formatting converges. The probes of a step succeed and change nothing, and each of its passes
replaces the content of the file to which its target leads by a change of that content alone;
several paths may lead to one file. If all changes together are idempotent, and the step comes to a
good end, then the same step run again comes to a good end too: with the same processed files and
without a changed one, with nothing written, and with all files as the first run left them. -/
theorem second_run_changes_nothing (s : Setting σ) (step : FormatStep) (w : World σ)
    (changes : List (Bytes → Bytes))
    (hprobes : ∀ tool ∈ step.probes, ∀ state tree,
      (s.runner tool.probeRequest state tree).answer = .ok .success ∧
        (s.runner tool.probeRequest state tree).tree = tree)
    (hpasses : List.Forall₂ s.Applies step.passes changes)
    (hidem : ∀ content, composite changes (composite changes content) = composite changes content)
    (hfirst : ∃ report, (step.run s).outcome w = .ok report) :
    let first := (step.run s).after w
    let second := (step.run s).after first
    ∃ processed changed events,
      (step.run s).outcome w = .ok (.formatted ⟨processed, changed⟩) ∧
      (step.run s).outcome first = .ok (.formatted ⟨processed, []⟩) ∧
      second.journal = first.journal ++ events ∧ pieces events = [] ∧
      first.tree.SameLayout second.tree ∧
      ∀ loc, second.tree.content? loc = first.tree.content? loc := by
  intro first second
  let files := Walk.survey ⟨w.tree, s.cwd⟩ step.root step.selection
  have hflow := Walk.foreseen_survey w.tree s step.root step.selection
  have hfiles : ∀ f ∈ files, (FileSystem.mk w.tree s.cwd).isFile f = true :=
    fun f hf => Walk.isFile_of_mem_survey hf
  -- the first run settles the files, and the second finds them settled
  obtain ⟨_, -, _, r, -, hr, hsettles⟩ : (step.run s).Meets w _ := run_of_report hprobes
    fun w' hw => Formatting.report_settles hpasses hidem hflow hfiles (hw ▸ .refl w.tree)
  obtain ⟨report, hreport⟩ := hfirst
  cases r with
  | error e =>
    rw [hreport] at hr
    cases hr
  | ok r =>
    obtain ⟨hprocessed, hlayout, hsettled⟩ := hsettles r rfl
    obtain ⟨events, hj, _, _, hpieces, hr', hquiet, rfl, hlayout', hcontents⟩ :=
      run_of_report hprobes fun w' hw =>
        Formatting.report_of_settled hpasses hflow hfiles hw hlayout hsettled
    refine ⟨r.processed, r.changed, events, hr, ?_, hj, ?_, hlayout', hcontents⟩
    · rw [hr', hprocessed]
      rfl
    · rw [← pieces_deeds, hpieces, hquiet]

/-- A file to which a link leads too, and two passes: one adds a byte, and the other takes all such
bytes away. -/
theorem second_run_of_small_project :
    let a : Name := ⟨[97], by decide⟩
    let b : Name := ⟨[98], by decide⟩
    let file : Path := ⟨[47, 97]⟩
    let cwd : Working := ⟨[], 0⟩
    let edit (change : Bytes → Bytes) (tree : Tree) (file : Path) : Tree :=
      match (FileSystem.mk tree cwd).resolve .follow file with
      | .ok (.entry loc (.file content executable)) =>
        tree.put loc (.file (change content) executable)
      | _ => tree
    let add (content : Bytes) : Bytes := content ++ [1]
    let drop (content : Bytes) : Bytes := content.filter (· ≠ 1)
    let s : Setting Unit := ⟨cwd, fun request _ tree => ⟨.ok .success, [], (),
      match request.output, request.args with
      | .inherit, [file] =>
        edit (if request.program = .ofString "add" then add else drop) tree ⟨file⟩
      | _, _ => tree⟩, .willing⟩
    let step : FormatStep := ⟨"edit", ⟨[Bytes.slash]⟩, .names ["a", "b"], [.named "add"],
      [.named "add", .named "drop"]⟩
    let w : World Unit := ⟨⟨[(a, .file [1, 2] false), (b, .link [97])], []⟩, (), []⟩
    let first := (step.run s).after w
    (∀ tool ∈ step.probes, ∀ state tree,
        (s.runner tool.probeRequest state tree).answer = .ok .success ∧
          (s.runner tool.probeRequest state tree).tree = tree) ∧
      List.Forall₂ s.Applies step.passes [add, drop] ∧
      (∀ content, composite [add, drop] (composite [add, drop] content) =
        composite [add, drop] content) ∧
      (∃ content, add (add content) ≠ add content) ∧
      (step.run s).outcome w = .ok (.formatted ⟨[file, file], [file]⟩) ∧
      first.tree.content? [a] = some [2] ∧
      (step.run s).outcome first = .ok (.formatted ⟨[file, file], []⟩) := by
  intro a b file cwd edit add drop s step w first
  have hedit (change : Bytes → Bytes) (tree : Tree) (file : Path) (loc : Location)
      (content : Bytes) (hleads : (FileSystem.mk tree cwd).LeadsTo file loc)
      (hcontent : tree.content? loc = some content) :
      tree.Replaces (edit change tree file) loc (change content) := by
    obtain ⟨node, hr⟩ := hleads
    have hnode := FileSystem.node?_of_resolve hr
    rw [Tree.content?, hnode] at hcontent
    cases node with
    | file bytes executable =>
      obtain rfl := Option.some.inj hcontent
      dsimp only [edit]
      rw [hr]
      exact .put_file hnode
    | link | directory | device => cases hcontent
  have hpasses : List.Forall₂ s.Applies step.passes [add, drop] :=
    .cons (fun file state tree loc content hl hc => ⟨rfl, hedit add tree file loc content hl hc⟩)
      (.cons (fun file state tree loc content hl hc =>
        ⟨rfl, hedit drop tree file loc content hl hc⟩) .nil)
  have hidem (content : Bytes) : composite [add, drop] (composite [add, drop] content) =
      composite [add, drop] content := by
    simp [composite, add, drop]
  have hprobes : ∀ tool ∈ step.probes, ∀ state tree,
      (s.runner tool.probeRequest state tree).answer = .ok .success ∧
        (s.runner tool.probeRequest state tree).tree = tree := fun _ _ _ _ => ⟨rfl, rfl⟩
  have hok : (step.run s).outcome w = .ok (.formatted ⟨[file, file], [file]⟩) := by decide +kernel
  obtain ⟨processed, changed, events, hfirst, hsecond, -⟩ := second_run_changes_nothing s step w
    [add, drop] hprobes hpasses hidem ⟨_, hok⟩
  obtain ⟨rfl, -⟩ : processed = [file, file] ∧ changed = [file] := by
    simpa using hfirst.symm.trans hok
  exact ⟨hprobes, hpasses, hidem, ⟨[], by decide⟩, hok, by decide +kernel, hsecond⟩

end FormatStep

end Groom
