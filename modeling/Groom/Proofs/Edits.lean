import Mathlib.Data.List.Forall2
import Groom.Proofs.Aliases
import Groom.Proofs.Convergence
import Groom.Proofs.FormatChain
import Groom.Proofs.Formatting
import Groom.Proofs.Replay
import Groom.Proofs.Revision

/-! Formatting steps as edits. Where each pass changes the content of its file by a function of that
content, what a step does to a tree without links is one edit for each file that it comes to, and
its report names the files to which that makes a difference. -/
namespace Groom

variable {σ α β : Type}

/-- Whatever its state and the tree are, the runner succeeds with a pass on a file and gives the
file the changed content. -/
def Setting.Revises (s : Setting σ) (pass : Tool) (change : Bytes → Bytes) : Prop :=
  ∀ file state tree loc content executable,
    (FileSystem.mk tree s.cwd).resolve .follow file = .ok (.entry loc (.file content executable)) →
    (s.runner (pass.workRequest file) state tree).answer = .ok .success ∧
      (s.runner (pass.workRequest file) state tree).tree =
        tree.put loc (.file (change content) executable)

theorem Setting.Revises.reply {s : Setting σ} {pass : Tool} {change : Bytes → Bytes}
    (h : s.Revises pass change) {file : Path} {tree : Tree} {loc : Location} {content : Bytes}
    (hleads : (FileSystem.mk tree s.cwd).LeadsTo file loc)
    (hcontent : tree.content? loc = some content) (state : σ) :
    (s.runner (pass.workRequest file) state tree).answer = .ok .success ∧
      (s.runner (pass.workRequest file) state tree).tree = tree.revise loc change := by
  obtain ⟨node, hr⟩ := hleads
  obtain ⟨executable, hnode⟩ := Tree.exists_file_of_content? hcontent
  obtain rfl := Option.some.inj ((FileSystem.node?_of_resolve hr).symm.trans hnode)
  obtain ⟨hanswer, htree⟩ := h file state tree loc content executable hr
  exact ⟨hanswer, htree.trans (Tree.put_eq_revise hnode change)⟩

/-- Changes of one file, one after another, are one change of it. -/
theorem reviseAll_same (t : Tree) (loc : Location) (changes : List (Bytes → Bytes)) :
    t.reviseAll (changes.map (loc, ·)) = t.revise loc (composite changes) := by
  induction changes generalizing t with
  | nil => exact (t.revise_id loc).symm
  | cons change rest ih =>
    calc (t.revise loc change).reviseAll (rest.map (loc, ·))
        = (t.revise loc change).revise loc (composite rest) := ih _
      _ = t.revise loc (composite rest ∘ change) := t.revise_revise loc change _

/-- In all trees of a layout, the runner obliges when it is given some requests, and what it makes
of a tree are these edits. -/
def Grants (s : Setting σ) (t : Tree) (requests : List Request)
    (edits : List (Location × (Bytes → Bytes))) : Prop :=
  ∀ state tree, t.SameLayout tree → s.Obliges requests state tree ∧
    (s.replay requests (state, tree)).2 = tree.reviseAll edits

namespace Grants

variable {s : Setting σ} {t : Tree} {requests more : List Request}
  {edits edits' : List (Location × (Bytes → Bytes))}

theorem nil : Grants s t [] [] := fun _ _ _ => ⟨trivial, rfl⟩

theorem obliges_append {state : σ} {tree : Tree} :
    s.Obliges (requests ++ more) state tree ↔ s.Obliges requests state tree ∧
      s.Obliges more (s.replay requests (state, tree)).1 (s.replay requests (state, tree)).2 := by
  induction requests generalizing state tree with
  | nil => simp [Setting.Obliges, Setting.replay]
  | cons request rest ih =>
    simp only [List.cons_append, Setting.Obliges, ih, and_assoc]
    rfl

theorem layout_of_obliges {state : σ} {tree : Tree} (h : s.Obliges requests state tree) :
    tree.SameLayout (s.replay requests (state, tree)).2 := by
  induction requests generalizing state tree with
  | nil => exact .refl tree
  | cons request rest ih =>
    obtain ⟨-, hlayout, hrest⟩ := h
    exact hlayout.trans (ih hrest)

theorem append (h : Grants s t requests edits) (h' : Grants s t more edits') :
    Grants s t (requests ++ more) (edits ++ edits') := by
  intro state tree ht
  obtain ⟨hobliges, htree⟩ := h state tree ht
  obtain ⟨hobliges', htree'⟩ := h' (s.replay requests (state, tree)).1
    (s.replay requests (state, tree)).2 (ht.trans (layout_of_obliges hobliges))
  refine ⟨obliges_append.mpr ⟨hobliges, hobliges'⟩, ?_⟩
  rw [Setting.replay_append, Tree.reviseAll_append, ← htree]
  exact htree'

theorem flatMap (as : List α) {requests : α → List Request}
    {edits : α → List (Location × (Bytes → Bytes))}
    (h : ∀ a ∈ as, Grants s t (requests a) (edits a)) :
    Grants s t (as.flatMap requests) (as.flatMap edits) := by
  induction as with
  | nil => exact nil
  | cons a rest ih =>
    obtain ⟨hfirst, hrest⟩ := List.forall_mem_cons.mp h
    rw [List.flatMap_cons, List.flatMap_cons]
    exact hfirst.append (ih hrest)

/-- Probes that succeed and change nothing. -/
theorem probes {tools : List Tool} (hprobes : ∀ tool ∈ tools, ∀ state tree,
      (s.runner tool.probeRequest state tree).answer = .ok .success ∧
        (s.runner tool.probeRequest state tree).tree = tree) :
    Grants s t (tools.map Tool.probeRequest) [] := by
  have hone (tool : Tool) (htool : tool ∈ tools) : Grants s t [tool.probeRequest] [] := by
    intro state tree _
    obtain ⟨hanswer, htree⟩ := hprobes tool htool state tree
    refine ⟨⟨hanswer, ?_, trivial⟩, htree⟩
    rw [htree]
    exact .refl tree
  have hall := flatMap tools hone
  rwa [← List.map_eq_flatMap, List.flatMap_eq_nil_iff.mpr fun _ _ => rfl] at hall

/-- The passes on a file are one edit of it. -/
theorem passes {passes : List Tool} {changes : List (Bytes → Bytes)}
    (hpasses : List.Forall₂ s.Revises passes changes) {file : Path} {loc : Location}
    (hfile : (FileSystem.mk t s.cwd).isFile file = true)
    (hleads : (FileSystem.mk t s.cwd).LeadsTo file loc) :
    Grants s t (passes.map (·.workRequest file)) [(loc, composite changes)] := by
  have hone (pass : Tool) (change : Bytes → Bytes) (hpass : s.Revises pass change) :
      Grants s t [pass.workRequest file] [(loc, change)] := by
    intro state tree ht
    obtain ⟨loc', content, hleads', hcontent⟩ := Formatting.leadsTo_of_isFile ht hfile
    obtain rfl := hleads'.unique (hleads.layout ht)
    obtain ⟨hanswer, htree⟩ := hpass.reply hleads' hcontent state
    refine ⟨⟨hanswer, ?_, trivial⟩, htree⟩
    rw [htree]
    exact .revise hcontent change
  have hall : Grants s t (passes.map (·.workRequest file)) (changes.map (loc, ·)) := by
    induction hpasses with
    | nil => exact nil
    | @cons pass change _ _ hpass _ ih => exact (hone pass change hpass).append ih
  intro state tree ht
  obtain ⟨hobliges, htree⟩ := hall state tree ht
  exact ⟨hobliges, htree.trans (reviseAll_same tree loc changes)⟩

end Grants

theorem requests_succeeded (requests : List Request) :
    (succeeded requests).map (·.1) = requests := by
  rw [succeeded, List.map_map]
  exact List.map_id requests

namespace Formatting

/-- Passes that revise a file change at most the bytes of that file. -/
theorem careful_of_revises {s : Setting σ} {file : Path} {passes : List Tool}
    {changes : List (Bytes → Bytes)} (hpasses : List.Forall₂ s.Revises passes changes)
    {tree : Tree} (hfile : (FileSystem.mk tree s.cwd).isFile file = true) (state : σ) :
    Careful s file passes state tree := by
  induction hpasses generalizing state tree with
  | nil => trivial
  | @cons pass change _ _ hpass _ ih =>
    obtain ⟨loc, content, hleads, hcontent⟩ := FileSystem.isFile_iff.mp hfile
    obtain ⟨-, htree⟩ := hpass.reply hleads hcontent state
    have hlayout : tree.SameLayout (tree.revise loc change) := .revise hcontent change
    refine ⟨⟨htree ▸ hlayout.toSameShape, fun loc' hloc' => ?_⟩, fun _ => ih ?_ _⟩
    · rw [htree, Tree.content?_revise_of_ne hcontent]
      rintro rfl
      exact hloc' hleads
    · rw [htree, FileSystem.isFile_layout hlayout]
      exact hfile

end Formatting

namespace FileSystem

/-- The place to which a path leads, if it leads to an entry. -/
def locate? (fs : FileSystem) (p : Path) : Option Location :=
  match fs.resolve .follow p with
  | .ok (.entry loc _) => some loc
  | _ => none

variable {fs : FileSystem} {t t' : Tree} {cwd : Working} {p : Path} {loc : Location}

theorem locate?_eq_some_iff : fs.locate? p = some loc ↔ fs.LeadsTo p loc := by
  unfold locate? LeadsTo
  rcases fs.resolve .follow p with e | ⟨loc', node⟩ | ⟨dir, name⟩ | _ <;> simp

theorem locate?_layout (h : t.SameLayout t') (cwd : Working) (p : Path) :
    (mk t' cwd).locate? p = (mk t cwd).locate? p := by
  apply Option.ext
  intro loc
  rw [locate?_eq_some_iff, locate?_eq_some_iff]
  exact ⟨fun hp => hp.layout h.symm, fun hp => hp.layout h⟩

end FileSystem

namespace FormatStep

variable {s : Setting σ} {t t' : Tree} {cwd : Working} {w : World σ}

/-- What a step does with these changes of its passes: it changes each of its files. -/
def edits (step : FormatStep) (fs : FileSystem) (changes : List (Bytes → Bytes)) :
    List (Location × (Bytes → Bytes)) :=
  (step.files fs).flatMap fun file => ((fs.locate? file).map (·, composite changes)).toList

/-- What it reports: the files to which the changes make a difference are changed. -/
def result (step : FormatStep) (fs : FileSystem) (changes : List (Bytes → Bytes)) :
    FormatReport where
  processed := (step.files fs).map fs.absolute
  changed := ((step.files fs).filter fun file =>
    (fs.bytes? file).map (composite changes) ≠ fs.bytes? file).map fs.absolute

/-- A walk over a tree finds what it finds over any other tree of the same layout. -/
theorem files_layout (step : FormatStep) (h : t.SameLayout t') (cwd : Working) :
    step.files ⟨t', cwd⟩ = step.files ⟨t, cwd⟩ := by
  let quiet : Setting Unit := ⟨cwd, fun _ _ tree => ⟨.ok .success, [], (), tree⟩, .willing⟩
  let later : World Unit := ⟨t', (), []⟩
  -- one walk, foreseen from either tree
  have hfirst := (Walk.foreseen_survey t quiet step.root step.selection).toList later h
  have hlater := (Walk.foreseen_survey t' quiet step.root step.selection).toList later (.refl t')
  exact Except.ok.inj (hlater.symm.trans hfirst)

theorem requests_layout (step : FormatStep) (h : t.SameLayout t') (cwd : Working) :
    step.requests ⟨t', cwd⟩ = step.requests ⟨t, cwd⟩ := by
  unfold requests
  rw [step.files_layout h]

theorem edits_layout (step : FormatStep) (changes : List (Bytes → Bytes)) (h : t.SameLayout t')
    (cwd : Working) : step.edits ⟨t', cwd⟩ changes = step.edits ⟨t, cwd⟩ changes := by
  unfold edits
  rw [step.files_layout h]
  simp only [FileSystem.locate?_layout h]

variable {step step' : FormatStep} {fs : FileSystem} {changes : List (Bytes → Bytes)}
  {edit : Location × (Bytes → Bytes)}

theorem leadsTo_of_mem_files {file : Path} (hfile : file ∈ step.files fs) :
    ∃ loc content, fs.LeadsTo file loc ∧ fs.tree.content? loc = some content :=
  FileSystem.isFile_iff.mp (Walk.isFile_of_mem_survey hfile)

/-- Each file gives one edit. -/
theorem edits_of_file {file : Path} {loc : Location} (h : fs.LeadsTo file loc) :
    ((fs.locate? file).map (·, composite changes)).toList = [(loc, composite changes)] := by
  rw [FileSystem.locate?_eq_some_iff.mpr h]
  rfl

theorem mem_edits : edit ∈ step.edits fs changes ↔
    edit.2 = composite changes ∧ ∃ file ∈ step.files fs, fs.LeadsTo file edit.1 := by
  unfold edits
  rw [List.mem_flatMap]
  constructor
  · rintro ⟨file, hfile, hedit⟩
    obtain ⟨loc, content, hleads, -⟩ := leadsTo_of_mem_files hfile
    rw [edits_of_file hleads, List.mem_singleton] at hedit
    subst hedit
    exact ⟨rfl, file, hfile, hleads⟩
  · rintro ⟨hchange, file, hfile, hleads⟩
    refine ⟨file, hfile, ?_⟩
    rw [edits_of_file hleads, List.mem_singleton, ← hchange]

theorem holds_edits (step : FormatStep) (fs : FileSystem) (changes : List (Bytes → Bytes)) :
    fs.tree.Holds (step.edits fs changes) := by
  intro edit hedit
  obtain ⟨-, file, hfile, hleads⟩ := mem_edits.mp hedit
  obtain ⟨loc, content, hleads', hcontent⟩ := leadsTo_of_mem_files hfile
  exact ⟨content, hleads.unique hleads' ▸ hcontent⟩

/-- Without links, no two paths of a walk lead to one file. -/
theorem batch_files (step : FormatStep) (hl : t.Linkless) (cwd : Working) :
    Walk.Batch ⟨t, cwd⟩ (step.files ⟨t, cwd⟩) := by
  let quiet : Setting Unit := ⟨cwd, fun _ _ tree => ⟨.ok .success, [], (), tree⟩, .willing⟩
  have hforeseen := Walk.foreseen_survey t quiet step.root step.selection
  exact Walk.batch_of_foreseen hl (hforeseen.mono fun _ h => h.layout hl) ⟨t, (), []⟩ rfl

/-- Without links, no file is edited twice. -/
theorem pairwise_edits (step : FormatStep) (hl : t.Linkless) (cwd : Working)
    (changes : List (Bytes → Bytes)) :
    (step.edits ⟨t, cwd⟩ changes).Pairwise fun x y => x.1 ≠ y.1 := by
  have hb := step.batch_files hl cwd
  have hedits {file : Path} (hfile : file ∈ step.files ⟨t, cwd⟩)
      {edit : Location × (Bytes → Bytes)}
      (hedit : edit ∈ (((FileSystem.mk t cwd).locate? file).map (·, composite changes)).toList) :
      (FileSystem.mk t cwd).LeadsTo file edit.1 := by
    obtain ⟨loc, content, hleads, -⟩ := leadsTo_of_mem_files hfile
    rw [edits_of_file hleads, List.mem_singleton] at hedit
    exact hedit ▸ hleads
  refine List.pairwise_flatMap.mpr ⟨?_, ?_⟩
  · intro file hfile
    obtain ⟨loc, content, hleads, -⟩ := leadsTo_of_mem_files hfile
    rw [edits_of_file hleads]
    exact List.pairwise_singleton _ _
  · refine hb.nodup.imp_of_mem fun {f g} hf hg hne x hx y hy heq => hne ?_
    exact hb.apart f hf g hg x.1 (hedits hf hx) (heq ▸ hedits hg hy)

/-- A report depends on the layout of a tree and on the bytes of the files of its step. -/
theorem result_congr (step : FormatStep) (changes : List (Bytes → Bytes)) (h : t.SameLayout t')
    (hbytes : ∀ file ∈ step.files ⟨t, cwd⟩,
      (FileSystem.mk t' cwd).bytes? file = (FileSystem.mk t cwd).bytes? file) :
    step.result ⟨t', cwd⟩ changes = step.result ⟨t, cwd⟩ changes := by
  have habsolute : (FileSystem.mk t' cwd).absolute = (FileSystem.mk t cwd).absolute :=
    funext (FileSystem.absolute_layout h cwd)
  unfold result
  rw [step.files_layout h, habsolute]
  congr 2
  exact List.filter_congr fun file hfile => by rw [hbytes file hfile]

/-- What the edits of a step make of the files that it comes to. -/
theorem bytes?_of_edited (step : FormatStep) (hl : t.Linkless) (cwd : Working)
    (changes : List (Bytes → Bytes)) {file : Path} (hfile : file ∈ step.files ⟨t, cwd⟩) :
    (FileSystem.mk (t.reviseAll (step.edits ⟨t, cwd⟩ changes)) cwd).bytes? file =
      ((FileSystem.mk t cwd).bytes? file).map (composite changes) := by
  have hb := step.batch_files hl cwd
  have hlayout : t.SameLayout (t.reviseAll (step.edits ⟨t, cwd⟩ changes)) :=
    .reviseAll (step.holds_edits ⟨t, cwd⟩ changes)
  obtain ⟨loc, content, hleads, -⟩ := leadsTo_of_mem_files hfile
  have hedit : (loc, composite changes) ∈ step.edits ⟨t, cwd⟩ changes :=
    mem_edits.mpr ⟨rfl, file, hfile, hleads⟩
  rw [Formatting.bytes?_of_mem hb hfile hlayout.toSameShape hleads,
    Formatting.bytes?_of_mem hb hfile (.refl t) hleads]
  exact Tree.content?_reviseAll_of_mem (step.holds_edits _ changes)
    (step.pairwise_edits hl cwd changes) hedit

/-- Two steps that do not come to one file by any two paths. -/
def Independent (fs : FileSystem) (step step' : FormatStep) : Prop :=
  ∀ f ∈ step.files fs, ∀ g ∈ step'.files fs, ¬fs.Aliases f g

theorem Independent.symm (h : Independent fs step step') : Independent fs step' step := by
  rintro f hf g hg ⟨loc, hleads, hleads'⟩
  exact h g hg f hf ⟨loc, hleads', hleads⟩

theorem Independent.layout (h : t.SameLayout t') (hi : Independent ⟨t, cwd⟩ step step') :
    Independent ⟨t', cwd⟩ step step' := by
  intro f hf g hg haliases
  obtain ⟨loc, hleads, hleads'⟩ := haliases
  rw [step.files_layout h] at hf
  rw [step'.files_layout h] at hg
  exact hi f hf g hg ⟨loc, hleads.layout h.symm, hleads'.layout h.symm⟩

/-- A step does not see what an independent one has done. -/
theorem Independent.bytes? (hl : t.Linkless) (hi : Independent ⟨t, cwd⟩ step step')
    (changes : List (Bytes → Bytes)) {file : Path} (hfile : file ∈ step'.files ⟨t, cwd⟩) :
    (FileSystem.mk (t.reviseAll (step.edits ⟨t, cwd⟩ changes)) cwd).bytes? file =
      (FileSystem.mk t cwd).bytes? file := by
  have hb := step'.batch_files hl cwd
  have hholds := step.holds_edits ⟨t, cwd⟩ changes
  have hlayout : t.SameLayout (t.reviseAll (step.edits ⟨t, cwd⟩ changes)) := .reviseAll hholds
  obtain ⟨loc, content, hleads, -⟩ := leadsTo_of_mem_files hfile
  rw [Formatting.bytes?_of_mem hb hfile hlayout.toSameShape hleads,
    Formatting.bytes?_of_mem hb hfile (.refl t) hleads]
  refine Tree.content?_reviseAll_of_others hholds fun edit hedit heq => ?_
  obtain ⟨-, f, hf, hf'⟩ := mem_edits.mp hedit
  exact hi f hf file hfile ⟨loc, heq ▸ hf', hleads⟩

/-- What is relied on when a step is run with these changes of its passes. -/
structure Reliable (s : Setting σ) (step : FormatStep) (changes : List (Bytes → Bytes)) :
    Prop where
  probes : ∀ tool ∈ step.probes, ∀ state tree,
    (s.runner tool.probeRequest state tree).answer = .ok .success ∧
      (s.runner tool.probeRequest state tree).tree = tree
  passes : List.Forall₂ s.Revises step.passes changes

theorem Reliable.grants (h : step.Reliable s changes) (t : Tree) :
    Grants s t (step.requests ⟨t, s.cwd⟩) (step.edits ⟨t, s.cwd⟩ changes) := by
  refine (Grants.probes h.probes).append (Grants.flatMap _ fun file hfile => ?_)
  obtain ⟨loc, content, hleads, -⟩ := leadsTo_of_mem_files hfile
  rw [edits_of_file hleads]
  exact .passes h.passes (Walk.isFile_of_mem_survey hfile) hleads

theorem Reliable.careful (h : step.Reliable s changes) :
    ∀ x ∈ step.visits s w, Formatting.Careful s x.1 step.passes x.2.runner x.2.tree := by
  intro x hx
  obtain ⟨_, _, _, _, _, _, hfile, _⟩ := (Walk.finds_targets _).of_mem_trail hx
  exact Formatting.careful_of_revises h.passes hfile x.2.runner

/-- A step on a tree without links makes its edits and reports them. -/
theorem Reliable.run_meets (h : step.Reliable s changes)
    (hwriter : ∀ taken piece, s.writer.refuse taken piece = none) (hl : w.tree.Linkless) :
    (step.run s).Meets w fun ds r w' =>
      calls ds = succeeded (step.requests ⟨w.tree, s.cwd⟩) ∧
      r = .ok (.formatted (step.result ⟨w.tree, s.cwd⟩ changes)) ∧
      w'.tree = w.tree.reviseAll (step.edits ⟨w.tree, s.cwd⟩ changes) := by
  let fs : FileSystem := ⟨w.tree, s.cwd⟩
  obtain ⟨hobliges, hedited⟩ := h.grants w.tree w.runner w.tree (.refl w.tree)
  have hforeseen := Walk.foreseen_survey w.tree s step.root step.selection
  have hperforms := step.performs hwriter w [] (.refl w.tree) (by rwa [List.append_nil])
  have haccounts := FormatStep.run_meets (step.batch_files hl s.cwd)
    (hforeseen.mono fun _ h => h.layout hl)
    (fun tool htool state tree => (h.probes tool htool state tree).2) h.careful
  refine ((hperforms.and haccounts).and (Step.replays s (.format step) w)).mono ?_
  intro ds r w' hmeets
  obtain ⟨⟨⟨hcalls, ⟨report, rfl, -⟩, -⟩, -, -, hreport, -⟩, hreplay⟩ := hmeets
  -- the runner was given the requests of the step, and no others
  have htree : w'.tree = w.tree.reviseAll (step.edits fs changes) := by
    rw [hcalls, requests_succeeded] at hreplay
    exact (congrArg Prod.snd hreplay).trans hedited
  refine ⟨hcalls, ?_, htree⟩
  rw [hreport, result]
  congr 4
  refine List.filter_congr fun file hfile => ?_
  rw [FileSystem.differs, htree, step.bytes?_of_edited hl s.cwd changes hfile]

end FormatStep

/-- A chain of steps that do not come to each other's files: each reports what it would report
alone, and their edits are made one step after another. -/
theorem Chain.run_independent {s : Setting σ} {w : World σ}
    {changes : FormatStep → List (Bytes → Bytes)} {steps : List FormatStep}
    (hwriter : ∀ taken piece, s.writer.refuse taken piece = none) (hl : w.tree.Linkless)
    (hreliable : ∀ step ∈ steps, step.Reliable s (changes step))
    (hindependent : steps.Pairwise (FormatStep.Independent ⟨w.tree, s.cwd⟩)) :
    (Chain.runSteps s (steps.map .format)).Meets w fun ds r w' =>
      let fs := FileSystem.mk w.tree s.cwd
      calls ds = succeeded (steps.flatMap (·.requests fs)) ∧
      r = .ok (steps.map fun step => .formatted (step.result fs (changes step))) ∧
      w'.tree = w.tree.reviseAll (steps.flatMap fun step => step.edits fs (changes step)) := by
  induction steps generalizing w with
  | nil => exact .pure ⟨rfl, rfl, rfl⟩
  | cons step rest ih =>
    obtain ⟨hfirst, hrest⟩ := List.forall_mem_cons.mp hreliable
    obtain ⟨hothers, hpairs⟩ := List.pairwise_cons.mp hindependent
    let fs : FileSystem := ⟨w.tree, s.cwd⟩
    let edits := step.edits fs (changes step)
    have hlayout : w.tree.SameLayout (w.tree.reviseAll edits) :=
      .reviseAll (step.holds_edits fs (changes step))
    have hstep : (Chain.runTask (Step.task s (.format step))).Meets w fun ds r w' =>
        calls ds = succeeded (step.requests fs) ∧
        r = .ok (.formatted (step.result fs (changes step))) ∧
        w'.tree = w.tree.reviseAll edits := by
      refine Chain.runTask_meets ?_ fun w' hs => ?_
      · rintro ds r w₁ w₂ hs ⟨hcalls, hr, htree⟩
        exact ⟨hcalls, hr, hs.1.trans htree⟩
      · have hmeets := hfirst.run_meets hwriter (hs.1 ▸ hl)
        rwa [hs.1] at hmeets
    rw [List.map_cons, Chain.runSteps_cons]
    refine hstep.bind ?_ ?_
    · intro ds report w₁ hmeets
      obtain ⟨hcalls, hr, htree⟩ := hmeets
      obtain rfl := Except.ok.inj hr
      -- the rest finds the files, and the bytes in them, that it would have found before
      have hlinkless : w₁.tree.Linkless := by
        rw [htree]
        exact hlayout.linkless hl
      have hpairs' : rest.Pairwise (FormatStep.Independent ⟨w₁.tree, s.cwd⟩) := by
        rw [htree]
        exact hpairs.imp fun hi => hi.layout hlayout
      refine (ih hlinkless hrest hpairs').bind ?_ ?_
      · intro ds' reports w₂ hmeets
        obtain ⟨hcalls', hr', htree'⟩ := hmeets
        obtain rfl := Except.ok.inj hr'
        rw [htree] at hcalls' htree'
        have hresults : ∀ step' ∈ rest, step'.result ⟨w₁.tree, s.cwd⟩ (changes step') =
            step'.result fs (changes step') := by
          intro step' hstep'
          rw [htree]
          refine step'.result_congr (changes step') hlayout fun file hfile => ?_
          exact (hothers step' hstep').bytes? hl (changes step) hfile
        simp only [FormatStep.requests_layout _ hlayout] at hcalls'
        simp only [FormatStep.edits_layout _ _ hlayout] at htree'
        refine .pure ⟨?_, ?_, ?_⟩
        · show calls (ds ++ (ds' ++ [])) = _
          rw [List.append_nil, calls_append, hcalls, hcalls', succeeded, succeeded, succeeded,
            List.flatMap_cons, List.map_append]
        · rw [List.map_cons, List.map_congr_left fun step' h =>
            congrArg StepReport.formatted (hresults step' h)]
        · rw [htree', List.flatMap_cons, Tree.reviseAll_append]
      · intro ds' e w₂ hmeets
        obtain ⟨-, hr', -⟩ := hmeets
        cases hr'
    · intro ds e w₁ hmeets
      obtain ⟨-, hr, -⟩ := hmeets
      cases hr

end Groom
