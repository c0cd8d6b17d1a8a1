import Groom.Proofs.Edits
import Groom.Proofs.Refusals

/-! Passes put together. A step takes one file after another through all its passes; two steps take
all files through the passes of the first and then through those of the second. Where each pass
changes the content of its file by a function of that content, and no file has two paths, both ways
end with the same tree. -/
namespace Groom

variable {σ : Type}

theorem composite_append (changes later : List (Bytes → Bytes)) :
    composite (changes ++ later) = composite later ∘ composite changes := by
  funext content
  exact List.foldl_append

namespace Tree

variable {loc : Location}

/-- A change of one file can wait until others are changed. -/
theorem reviseAll_revise (t : Tree) (change : Bytes → Bytes)
    {edits : List (Location × (Bytes → Bytes))} (h : ∀ edit ∈ edits, loc ≠ edit.1) :
    (t.revise loc change).reviseAll edits = (t.reviseAll edits).revise loc change := by
  induction edits generalizing t with
  | nil => rfl
  | cons edit rest ih =>
    obtain ⟨hfirst, hrest⟩ := List.forall_mem_cons.mp h
    calc ((t.revise loc change).revise edit.1 edit.2).reviseAll rest
        = ((t.revise edit.1 edit.2).revise loc change).reviseAll rest := by
          rw [revise_comm t change edit.2 hfirst]
      _ = ((t.revise edit.1 edit.2).reviseAll rest).revise loc change := ih _ hrest

/-- Two changes of each of several files: file by file, or one change of all files first. -/
theorem reviseAll_comp (t : Tree) {locs : List Location} (h : locs.Nodup)
    (change later : Bytes → Bytes) :
    t.reviseAll (locs.map (·, later ∘ change)) =
      (t.reviseAll (locs.map (·, change))).reviseAll (locs.map (·, later)) := by
  induction locs generalizing t with
  | nil => rfl
  | cons loc rest ih =>
    obtain ⟨hloc, hrest⟩ := List.nodup_cons.mp h
    have hothers : ∀ edit ∈ rest.map (·, change), loc ≠ edit.1 := by
      intro edit hedit heq
      obtain ⟨other, hother, rfl⟩ := List.mem_map.mp hedit
      exact hloc (heq ▸ hother)
    calc (t.revise loc (later ∘ change)).reviseAll (rest.map (·, later ∘ change))
        = ((t.revise loc (later ∘ change)).reviseAll (rest.map (·, change))).reviseAll
            (rest.map (·, later)) := ih _ hrest
      _ = (((t.revise loc change).revise loc later).reviseAll (rest.map (·, change))).reviseAll
            (rest.map (·, later)) := by rw [revise_revise]
      -- the second change of the first file has to wait for all the others
      _ = (((t.revise loc change).reviseAll (rest.map (·, change))).revise loc later).reviseAll
            (rest.map (·, later)) := by rw [reviseAll_revise _ later hothers]

end Tree

namespace FormatStep

variable {s : Setting σ} {t : Tree} {cwd : Working}

/-- The places of the files of a step, in the order of the walk. -/
def places (step : FormatStep) (fs : FileSystem) : List Location :=
  (step.files fs).filterMap fs.locate?

theorem edits_eq_map (step : FormatStep) (fs : FileSystem) (changes : List (Bytes → Bytes)) :
    step.edits fs changes = (step.places fs).map (·, composite changes) := by
  rw [edits, places, List.map_filterMap, List.filterMap_eq_flatMap_toList]

theorem nodup_places (step : FormatStep) (hl : t.Linkless) (cwd : Working) :
    (step.places ⟨t, cwd⟩).Nodup := by
  have hpairs := step.pairwise_edits hl cwd []
  rw [edits_eq_map, List.pairwise_map] at hpairs
  exact hpairs

/-- A step makes its edits and reports them, unless its report refuses a piece of text. -/
theorem Reliable.run_or_refused {step : FormatStep} {changes : List (Bytes → Bytes)}
    (h : step.Reliable s changes) {w : World σ} (hl : w.tree.Linkless) :
    s.Refused ((step.run s).outcome w) ∨
      ((step.run s).outcome w = .ok (.formatted (step.result ⟨w.tree, s.cwd⟩ changes)) ∧
      ((step.run s).after w).tree = w.tree.reviseAll (step.edits ⟨w.tree, s.cwd⟩ changes)) := by
  obtain hrefused | ⟨houtcome, hafter⟩ := step.refusedOr s w
  · exact .inl hrefused
  · have hheard : step.Reliable s.heard changes := ⟨h.probes, h.passes⟩
    obtain ⟨_, -, -, hr, htree⟩ := hheard.run_meets (fun _ _ => rfl) hl
    refine .inr ⟨houtcome.trans hr, ?_⟩
    rw [hafter]
    exact htree

/-- The edits of all passes together come to those of the first ones and then those of the others,
which find the same files at the same places. -/
theorem reviseAll_passes (step : FormatStep) (hl : t.Linkless) (cwd : Working)
    (changes changes' : List (Bytes → Bytes)) :
    t.reviseAll (step.edits ⟨t, cwd⟩ (changes ++ changes')) =
      (t.reviseAll (step.edits ⟨t, cwd⟩ changes)).reviseAll
        (step.edits ⟨t.reviseAll (step.edits ⟨t, cwd⟩ changes), cwd⟩ changes') := by
  rw [step.edits_layout changes' (.reviseAll (step.holds_edits ⟨t, cwd⟩ changes)) cwd]
  simp only [edits_eq_map, composite_append]
  exact Tree.reviseAll_comp t (step.nodup_places hl cwd) (composite changes) (composite changes')

/-- Each file of a step has content, and the edits of the step change it as its passes do. -/
theorem content_of_edited (step : FormatStep) (hl : t.Linkless) (cwd : Working)
    (changes : List (Bytes → Bytes)) {file : Path} (hfile : file ∈ step.files ⟨t, cwd⟩) :
    ∃ content, (FileSystem.mk t cwd).bytes? file = some content ∧
      (FileSystem.mk (t.reviseAll (step.edits ⟨t, cwd⟩ changes)) cwd).bytes? file =
        some (composite changes content) := by
  obtain ⟨loc, content, hleads, hcontent⟩ := step.leadsTo_of_mem_files hfile
  have hbytes : (FileSystem.mk t cwd).bytes? file = some content := by
    rw [FileSystem.bytes?_of_isFile (Walk.isFile_of_mem_survey hfile) hleads]
    exact hcontent
  refine ⟨content, hbytes, ?_⟩
  rw [step.bytes?_of_edited hl cwd changes hfile, hbytes]
  rfl

/-- Passes may run file by file or tree by tree. A tree has no links, and each pass of two lists
succeeds and gives its file content that depends on the file's content alone. One step with all the
passes leaves the tree that is left by a step with the first ones, followed by a step with the
others. All three process the same files. The one step reports a file as changed exactly if all
passes together change its content, and then one of the two steps reports it too; what the second of
these undoes is no change. Only a report that refuses a piece of text keeps a step from its end. -/
theorem passes_together (s : Setting σ) (w : World σ) (name : String) (root : Path)
    (selection : Selection) (passes others : List Tool) (changes changes' : List (Bytes → Bytes))
    (hlinks : w.tree.Linkless) (hpasses : List.Forall₂ s.Revises passes changes)
    (hothers : List.Forall₂ s.Revises others changes') :
    let step (passes : List Tool) : FormatStep := ⟨name, root, selection, [], passes⟩
    let fs : FileSystem := ⟨w.tree, s.cwd⟩
    let files := Walk.survey fs root selection
    let change := composite changes
    let change' := composite changes'
    let between := ((step passes).run s).after w
    ∃ (tree : Tree) (together first second : FormatReport),
      (s.Refused (((step (passes ++ others)).run s).outcome w) ∨
        (((step (passes ++ others)).run s).outcome w = .ok (.formatted together) ∧
        (((step (passes ++ others)).run s).after w).tree = tree)) ∧
      (s.Refused (((step passes).run s).outcome w) ∨
        (((step passes).run s).outcome w = .ok (.formatted first) ∧
        (s.Refused (((step others).run s).outcome between) ∨
          (((step others).run s).outcome between = .ok (.formatted second) ∧
          (((step others).run s).after between).tree = tree)))) ∧
      together.processed = files.map fs.absolute ∧
      first.processed = together.processed ∧ second.processed = together.processed ∧
      (∀ file ∈ files, (fs.bytes? file).isSome) ∧
      together.changed = (files.filter fun file =>
        (fs.bytes? file).any fun content => change' (change content) ≠ content).map fs.absolute ∧
      ∀ path ∈ together.changed, path ∈ first.changed ∨ path ∈ second.changed := by
  intro step fs files change change' between
  have hfirst : (step passes).Reliable s changes := ⟨nofun, hpasses⟩
  have hsecond : (step others).Reliable s changes' := ⟨nofun, hothers⟩
  have htogether : (step (passes ++ others)).Reliable s (changes ++ changes') :=
    ⟨nofun, List.rel_append hpasses hothers⟩
  let tree₁ := w.tree.reviseAll ((step passes).edits fs changes)
  have hlayout : w.tree.SameLayout tree₁ := .reviseAll ((step passes).holds_edits fs changes)
  have htrees : w.tree.reviseAll ((step (passes ++ others)).edits fs (changes ++ changes')) =
      tree₁.reviseAll ((step others).edits ⟨tree₁, s.cwd⟩ changes') :=
    (step others).reviseAll_passes hlinks s.cwd changes changes'
  have hbytes : ∀ file ∈ files, ∃ content, fs.bytes? file = some content ∧
      (FileSystem.mk tree₁ s.cwd).bytes? file = some (change content) := fun _ hfile =>
    (step passes).content_of_edited hlinks s.cwd changes hfile
  have habsolute : (FileSystem.mk tree₁ s.cwd).absolute = fs.absolute :=
    funext (FileSystem.absolute_layout hlayout s.cwd)
  refine ⟨_, (step (passes ++ others)).result fs (changes ++ changes'),
    (step passes).result fs changes, (step others).result ⟨tree₁, s.cwd⟩ changes',
    htogether.run_or_refused hlinks, ?_, rfl, rfl, ?_, ?_, ?_, ?_⟩
  · obtain hrefused | ⟨houtcome, htree⟩ := hfirst.run_or_refused hlinks
    · exact .inl hrefused
    · refine .inr ⟨houtcome, ?_⟩
      have hbetween : between.tree = tree₁ := htree
      have hrun := hsecond.run_or_refused (w := between) (hbetween ▸ hlayout.linkless hlinks)
      rw [hbetween, ← htrees] at hrun
      exact hrun
  · simp only [result, (step others).files_layout hlayout s.cwd, habsolute]
    rfl
  · intro file hfile
    obtain ⟨content, hcontent, -⟩ := hbytes file hfile
    rw [hcontent]
    rfl
  · simp only [result, composite_append]
    congr 1
    refine List.filter_congr fun file hfile => ?_
    obtain ⟨content, hcontent, -⟩ := hbytes file hfile
    simp [hcontent, change, change']
  · intro path hpath
    obtain ⟨file, hchosen, rfl⟩ := List.mem_map.mp hpath
    obtain ⟨hfile, hdiffers⟩ := List.mem_filter.mp hchosen
    obtain ⟨content, hcontent, hcontent₁⟩ := hbytes file hfile
    have hne : change' (change content) ≠ content := by
      simpa [hcontent, composite_append, change, change'] using hdiffers
    by_cases hsame : change content = content
    -- then the first passes leave the file alone, and the others change it
    · refine .inr ?_
      simp only [result, (step others).files_layout hlayout s.cwd, habsolute]
      refine List.mem_map_of_mem (List.mem_filter.mpr ⟨hfile, ?_⟩)
      rw [hcontent₁, hsame]
      rw [hsame] at hne
      simpa using hne
    · refine .inl (List.mem_map_of_mem (List.mem_filter.mpr ⟨hfile, ?_⟩))
      simpa [hcontent] using hsame

/-- Two files, and passes that undo one another on the first of them: one adds a byte, and the other
takes all such bytes away. -/
theorem passes_together_on_small_project :
    let a : Name := ⟨[97], by decide⟩
    let b : Name := ⟨[98], by decide⟩
    let cwd : Working := ⟨[], 0⟩
    let add (content : Bytes) : Bytes := content ++ [1]
    let drop (content : Bytes) : Bytes := content.filter (· ≠ 1)
    let s : Setting Unit := ⟨cwd, fun request _ tree => ⟨.ok .success, [], (),
      match request.output, request.args with
      | .inherit, [file] =>
        match (FileSystem.mk tree cwd).resolve .follow ⟨file⟩ with
        | .ok (.entry loc (.file content executable)) =>
          tree.put loc (.file (if request.program = .ofString "add" then add content
            else drop content) executable)
        | _ => tree
      | _, _ => tree⟩, .willing⟩
    let step (passes : List Tool) : FormatStep :=
      ⟨"edit", ⟨[Bytes.slash]⟩, .names ["a", "b"], [], passes⟩
    let w : World Unit := ⟨⟨[(a, .file [2] false), (b, .file [1] false)], []⟩, (), []⟩
    let between := ((step [.named "add"]).run s).after w
    w.tree.Linkless ∧ List.Forall₂ s.Revises [.named "add"] [add] ∧
      List.Forall₂ s.Revises [.named "drop"] [drop] ∧
      ((step ([.named "add"] ++ [.named "drop"])).run s).outcome w =
        .ok (.formatted ⟨[⟨[47, 97]⟩, ⟨[47, 98]⟩], [⟨[47, 98]⟩]⟩) ∧
      ((step [.named "add"]).run s).outcome w =
        .ok (.formatted ⟨[⟨[47, 97]⟩, ⟨[47, 98]⟩], [⟨[47, 97]⟩, ⟨[47, 98]⟩]⟩) ∧
      ((step ([.named "add"] ++ [.named "drop"])).run s |>.after w).tree =
        (((step [.named "drop"]).run s).after between).tree := by
  intro a b cwd add drop s step w between
  have hlinks : w.tree.Linkless := Tree.linkless_of_files (by decide)
  have hadd : List.Forall₂ s.Revises [.named "add"] [add] := by
    refine .cons (fun file state tree loc content executable hr => ⟨rfl, ?_⟩) .nil
    have hr' : (FileSystem.mk tree cwd).resolve .follow ⟨file.bytes⟩ =
      .ok (.entry loc (.file content executable)) := hr
    simp [s, Tool.workRequest, Tool.named, Tool.invocationFor, Arg.fill, hr']
  have hdrop : List.Forall₂ s.Revises [.named "drop"] [drop] := by
    refine .cons (fun file state tree loc content executable hr => ⟨rfl, ?_⟩) .nil
    have hr' : (FileSystem.mk tree cwd).resolve .follow ⟨file.bytes⟩ =
      .ok (.entry loc (.file content executable)) := hr
    have hother : Path.ofString "drop" ≠ Path.ofString "add" := by decide
    simp [s, Tool.workRequest, Tool.named, Tool.invocationFor, Arg.fill, hr', hother]
  have hwriter {ending : Except Error StepReport} : ¬s.Refused ending := by
    rintro ⟨taken, piece, refusal, hrefuse, -⟩
    cases hrefuse
  obtain ⟨tree, _, _, _, htogether, happart, -⟩ := passes_together s w "edit" ⟨[Bytes.slash]⟩
    (.names ["a", "b"]) [.named "add"] [.named "drop"] [add] [drop] hlinks hadd hdrop
  obtain ⟨-, hsecond⟩ := happart.resolve_left hwriter
  exact ⟨hlinks, hadd, hdrop, by decide +kernel, by decide +kernel,
    (htogether.resolve_left hwriter).2.trans (hsecond.resolve_left hwriter).2.symm⟩

end FormatStep

end Groom
