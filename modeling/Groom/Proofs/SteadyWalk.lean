import Groom.Proofs.Layout
import Groom.Proofs.Walk

/-! The walk over a tree that keeps its layout. What it finds one after another, while the bytes of
files may change, is what a survey of the tree finds at once: exactly the selected files to which
directories lead, in the order of their places. -/
namespace Groom.Walk

open Groom.Flow (Foreseen Reaches moments)

variable {σ : Type} {s : Setting σ} {root : Path} {selection : Selection} {t : Tree}

/-- A path alone, if it leads to a regular file and the selection accepts it. -/
def chosen (fs : FileSystem) (selection : Selection) (path : Path) : List Path :=
  if fs.isFile path && selection.accepts path then [path] else []

/-- All that a visit finds in a tree to which nothing happens meanwhile. -/
def surveyBelow (fs : FileSystem) (selection : Selection) :
    (depth : Nat) → Path → Kind → List Path
  | depth + 1, path, .directory =>
    chosen fs selection path ++ match fs.list path with
      | .ok listing => listing.flatMap fun entry =>
        surveyBelow fs selection depth (path.child entry.1) entry.2
      | .error _ => []
  | _, path, _ => chosen fs selection path

/-- All that a walk finds in a tree to which nothing happens meanwhile. -/
def survey (fs : FileSystem) (root : Path) (selection : Selection) : List Path :=
  match (fs.status root).map Node.kind with
  | .ok kind => surveyBelow fs selection Resolution.maxPath root kind
  | .error _ => []

theorem ask_eq_ok_iff {α : Type} {question : FileSystem → α} {answer : α} {w : World σ} :
    (do return question (← Run.files s) : Run σ α).outcome w = .ok answer ↔
      question ⟨w.tree, s.cwd⟩ = answer :=
  ⟨Except.ok.inj, congrArg Except.ok⟩

theorem foreseen_offer (path : Path) {rest : Flow (Run σ) Path} {members : List Path}
    (hrest : Foreseen t.SameLayout rest members) :
    Foreseen t.SameLayout (offer s selection path rest)
      (chosen ⟨t, s.cwd⟩ selection path ++ members) := by
  refine ⟨ask_idle s _, fun answer w hw hanswer => ?_⟩
  rw [ask_eq_ok_iff, FileSystem.isFile_layout hw] at hanswer
  rw [chosen, hanswer]
  cases answer with
  | true => exact ⟨members, rfl, hrest⟩
  | false => exact hrest

theorem foreseen_skip (path : Path) (cause : IoError) {rest : Flow (Run σ) Path}
    {members : List Path} (hrest : Foreseen t.SameLayout rest members) :
    Foreseen t.SameLayout (.ask (skip path cause) fun _ => rest) members :=
  ⟨skip_idle path cause, fun _ _ _ _ => hrest⟩

theorem foreseen_listing {depth : Nat} (path : Path)
    (hvisit : ∀ (path : Path) (kind : Kind) {rest : Flow (Run σ) Path} {members : List Path},
      Foreseen t.SameLayout rest members →
      Foreseen t.SameLayout (visit s selection depth path kind rest)
        (surveyBelow ⟨t, s.cwd⟩ selection depth path kind ++ members))
    (listing : List (Name × Kind)) {rest : Flow (Run σ) Path} {members : List Path}
    (hrest : Foreseen t.SameLayout rest members) :
    Foreseen t.SameLayout
      (listing.foldr (fun entry rest =>
        visit s selection depth (path.child entry.1) entry.2 rest) rest)
      ((listing.flatMap fun entry =>
        surveyBelow ⟨t, s.cwd⟩ selection depth (path.child entry.1) entry.2) ++ members) := by
  induction listing with
  | nil => exact hrest
  | cons entry listing ih =>
    rw [List.flatMap_cons, List.append_assoc]
    exact hvisit _ _ ih

theorem foreseen_visit (depth : Nat) (path : Path) (kind : Kind) {rest : Flow (Run σ) Path}
    {members : List Path} (hrest : Foreseen t.SameLayout rest members) :
    Foreseen t.SameLayout (visit s selection depth path kind rest)
      (surveyBelow ⟨t, s.cwd⟩ selection depth path kind ++ members) := by
  induction depth generalizing path kind rest members with
  | zero =>
    cases kind with
    | directory => exact foreseen_offer path (foreseen_skip path .nameTooLong hrest)
    | file | link | device => exact foreseen_offer path hrest
  | succ depth ih =>
    cases kind with
    | file | link | device => exact foreseen_offer path hrest
    | directory =>
      refine ⟨ask_idle s _, fun answer w hw hanswer => ?_⟩
      -- the listing is that of the first tree, whatever happened to the bytes of files since
      rw [ask_eq_ok_iff, FileSystem.list_layout hw] at hanswer
      rw [surveyBelow, hanswer, List.append_assoc]
      cases answer with
      | ok listing => exact foreseen_offer path (foreseen_listing path ih listing hrest)
      | error cause => exact foreseen_offer path (foreseen_skip path cause hrest)

/-- A question about the kind of an entry has one answer in all trees of a layout. -/
theorem foreseen_entry (purpose : Resolution.Purpose) (path : Path)
    {rest : Except IoError Node → Flow (Run σ) Path} {members : List Path}
    (hrest : ∀ answer : Except IoError Node,
      answer.map Node.kind = ((FileSystem.mk t s.cwd).entry purpose path).map Node.kind →
      Foreseen t.SameLayout (rest answer) members) :
    Foreseen t.SameLayout (.ask (do return (← Run.files s).entry purpose path) rest) members := by
  refine ⟨ask_idle s _, fun answer w hw hanswer => hrest answer ?_⟩
  rw [ask_eq_ok_iff] at hanswer
  rw [← hanswer, FileSystem.entry_layout hw]

/-- As long as a tree keeps its layout, a walk finds what a survey of it finds. -/
theorem foreseen_survey (t : Tree) (s : Setting σ) (root : Path) (selection : Selection) :
    Foreseen t.SameLayout (targets s root selection) (survey ⟨t, s.cwd⟩ root selection) := by
  have skipped (cause : IoError) :
      Foreseen t.SameLayout (.ask (skip root cause) fun _ => .done : Flow (Run σ) Path) [] :=
    foreseen_skip root cause rfl
  have visited (kind : Kind) :
      Foreseen t.SameLayout (visit s selection Resolution.maxPath root kind .done)
        (surveyBelow ⟨t, s.cwd⟩ selection Resolution.maxPath root kind) := by
    rw [← List.append_nil (surveyBelow _ _ _ _ _)]
    exact foreseen_visit Resolution.maxPath root kind rfl
  refine foreseen_entry .name root fun named hnamed => ?_
  -- what stands at the root is what the root leads to, unless it is a link
  have hsame (h : ∀ path, (FileSystem.mk t s.cwd).linkStatus root ≠ .ok (.link path)) :
      named.map Node.kind = ((FileSystem.mk t s.cwd).status root).map Node.kind := by
    rw [hnamed]
    obtain heq | ⟨path, hlink⟩ := (FileSystem.mk t s.cwd).linkStatus_eq_or_link root
    · exact congrArg (Except.map Node.kind) heq
    · exact absurd hlink (h path)
  have notLink (h : named.map Node.kind ≠ .ok .link) (path : Bytes) :
      (FileSystem.mk t s.cwd).linkStatus root ≠ .ok (.link path) := by
    intro hlink
    refine h (hnamed.trans ?_)
    exact congrArg (Except.map Node.kind) hlink
  cases named with
  | error cause =>
    rw [survey, ← hsame (notLink nofun)]
    exact skipped cause
  | ok node =>
    cases node with
    | link target =>
      refine foreseen_entry .follow root fun answer hanswer => ?_
      have hstatus : answer.map Node.kind =
          ((FileSystem.mk t s.cwd).status root).map Node.kind := hanswer
      rw [survey, ← hstatus]
      cases answer with
      | error cause => exact skipped cause
      | ok node => exact visited node.kind
    | file | directory | device =>
      rw [survey, ← hsame (notLink nofun)]
      exact visited _

/-- Where a file is found below a name, there is a directory above it. -/
theorem status_of_file_below {fs : FileSystem} {path : Path} (hpath : path.bytes ≠ [])
    (n : Name) (rest : Location) {node : Node}
    (h : fs.status (path.below (n :: rest)) = .ok node) :
    ∃ es, fs.status path = .ok (.directory es) := by
  induction rest generalizing path n with
  | nil =>
    obtain ⟨es, found, hes, -, -⟩ := FileSystem.entry_child (by decide) hpath h
    exact ⟨es, hes⟩
  | cons m rest ih =>
    obtain ⟨es, hes⟩ := ih (path.child_bytes_ne_nil n) m h
    obtain ⟨es', found, hes', -, -⟩ := FileSystem.entry_child (by decide) hpath hes
    exact ⟨es', hes'⟩

/-- An entry that was listed as a directory, and that leads somewhere, is a directory. -/
theorem linkStatus_of_listed {fs : FileSystem} {path : Path} {listing : List (Name × Kind)}
    (hlist : fs.list path = .ok listing) {n : Name} (hn : (n, .directory) ∈ listing) {node : Node}
    (hstatus : fs.status (path.child n) = .ok node) :
    ∃ es, fs.linkStatus (path.child n) = .ok (.directory es) := by
  obtain ⟨es, hes, rfl⟩ := FileSystem.list_eq_ok_iff.mp hlist
  have hpath : path.bytes ≠ [] := FileSystem.bytes_ne_nil_of_entry hes
  obtain ⟨listed, hlisted, hkind⟩ := Entries.mem_kinds.mp hn
  obtain ⟨named, hnamed, -⟩ := FileSystem.linkStatus_of_status hstatus
  obtain ⟨es', found, hes', hfound, heq | ⟨hname, -⟩⟩ :=
    FileSystem.entry_child (by decide) hpath hnamed
  -- the entry that the path names is the one that was listed
  · obtain rfl : es = es' := Node.directory.inj (Except.ok.inj (hes.symm.trans hes'))
    obtain rfl : listed = found := Option.some.inj (hlisted.symm.trans hfound)
    subst heq
    cases listed with
    | directory below => exact ⟨below, hnamed⟩
    | file | link | device => cases hkind
  · exact absurd rfl hname

theorem mem_chosen {fs : FileSystem} {path p : Path} :
    p ∈ chosen fs selection path ↔
      p = path ∧ fs.isFile path = true ∧ selection.accepts path = true := by
  unfold chosen
  cases fs.isFile path <;> cases selection.accepts path <;> simp

/-- What a visit finds is a file to which only directories lead from where the visit starts. -/
theorem of_mem_surveyBelow {fs : FileSystem} {depth : Nat} {path : Path} {kind : Kind} {p : Path}
    (h : p ∈ surveyBelow fs selection depth path kind) :
    ∃ place, p = path.below place ∧ fs.isFile p = true ∧ (place ≠ [] → kind = .directory) ∧
      ∀ front, front ≠ [] → front <+: place → front ≠ place →
        ∃ es, fs.linkStatus (path.below front) = .ok (.directory es) := by
  have here {path : Path} {kind : Kind} (h : p ∈ chosen fs selection path) :
      ∃ place, p = path.below place ∧ fs.isFile p = true ∧ (place ≠ [] → kind = .directory) ∧
        ∀ front, front ≠ [] → front <+: place → front ≠ place →
          ∃ es, fs.linkStatus (path.below front) = .ok (.directory es) := by
    obtain ⟨rfl, hfile, -⟩ := mem_chosen.mp h
    refine ⟨[], rfl, hfile, (absurd rfl ·), fun _ hne hprefix => ?_⟩
    exact absurd (List.prefix_nil.mp hprefix) hne
  induction depth generalizing path kind with
  | zero => cases kind <;> exact here h
  | succ depth ih =>
    cases kind with
    | file | link | device => exact here h
    | directory =>
      rw [surveyBelow] at h
      obtain h | h := List.mem_append.mp h
      · exact here h
      cases hlist : fs.list path with
      | error cause =>
        rw [hlist] at h
        cases h
      | ok listing =>
        rw [hlist] at h
        obtain ⟨⟨n, kind⟩, hmem, h⟩ := List.mem_flatMap.mp h
        obtain ⟨place, rfl, hfile, hkind, habove⟩ := ih h
        refine ⟨n :: place, rfl, hfile, fun _ => rfl, ?_⟩
        intro front hne hprefix hproper
        obtain ⟨m, rest, rfl⟩ := List.exists_cons_of_ne_nil hne
        obtain ⟨rfl, hrest⟩ := List.cons_prefix_cons.mp hprefix
        cases rest with
        | cons m' rest => exact habove (m' :: rest) (by simp) hrest (by simpa using hproper)
        | nil =>
          -- the entry itself lies on the way if something was found below it
          obtain ⟨m', rest, rfl⟩ := List.exists_cons_of_ne_nil (by simpa using hproper.symm)
          obtain rfl := hkind (by simp)
          obtain ⟨content, executable, hstatus⟩ := FileSystem.status_of_isFile hfile
          obtain ⟨es, hes⟩ := status_of_file_below (path.child_bytes_ne_nil m) m' rest hstatus
          exact linkStatus_of_listed hlist hmem hes

/-- What a survey finds can be reached from its root. -/
theorem of_mem_survey {fs : FileSystem} {p : Path} (h : p ∈ survey fs root selection) :
    ∃ place, p = root.below place ∧ Reachable fs root place := by
  have hrooted : root.bytes ≠ [] := by
    intro hroot
    obtain rfl : root = ⟨[]⟩ := congrArg Path.mk hroot
    cases h
  unfold survey at h
  split at h
  · obtain ⟨place, rfl, hfile, -, habove⟩ := of_mem_surveyBelow h
    exact ⟨place, rfl, hrooted, habove, hfile⟩
  · cases h

theorem isFile_of_mem_survey {fs : FileSystem} {p : Path} (h : p ∈ survey fs root selection) :
    fs.isFile p = true := by
  obtain ⟨place, rfl, hreachable⟩ := of_mem_survey h
  exact hreachable.file

theorem survey_of_missing {fs : FileSystem} {cause : IoError} (h : fs.status root = .error cause) :
    survey fs root selection = [] := by
  rw [survey, h]
  rfl

/-- A walk over a tree to which nothing happens meanwhile. Its members are exactly the paths below
the root that can be reached, through directories that are no links, that lead to a regular file and
that the selection accepts; they come in strict order of their places, so none comes twice. From a
root that leads nowhere there are none. -/
theorem walk_of_steady_tree (s : Setting σ) (root : Path) (selection : Selection) (w : World σ) :
    ∃ places : List Location,
      (targets s root selection).toList.outcome w = .ok (places.map root.below) ∧
      places.Pairwise Location.Before ∧ (places.map root.below).Nodup ∧
      (∀ place, place ∈ places ↔
        Reachable ⟨w.tree, s.cwd⟩ root place ∧ selection.accepts (root.below place) = true) ∧
      (∀ place ∈ places, ∃ content executable,
        (FileSystem.mk w.tree s.cwd).status (root.below place) = .ok (.file content executable)) ∧
      (∀ cause, (FileSystem.mk w.tree s.cwd).status root = .error cause → places = []) := by
  have hforeseen := foreseen_survey w.tree s root selection
  obtain ⟨found, w', hyields, hmembers, hstill, hend⟩ := hforeseen.yields w (.refl w.tree)
  obtain ⟨⟨places, hplaces, hsorted, -⟩, hfits⟩ := places_of_finds hyields none (finds_targets w)
  have hsurvey : survey ⟨w.tree, s.cwd⟩ root selection = places.map root.below :=
    hmembers.symm.trans hplaces
  have hreachable (place : Location) (hplace : place ∈ places) :
      Reachable ⟨w.tree, s.cwd⟩ root place := by
    have hmem : root.below place ∈ survey ⟨w.tree, s.cwd⟩ root selection :=
      hsurvey ▸ List.mem_map_of_mem hplace
    obtain ⟨place', hpath, hreachable⟩ := of_mem_survey hmem
    exact Path.below_injective root hpath ▸ hreachable
  have haccepts (place : Location) (hplace : place ∈ places) :
      selection.accepts (root.below place) = true := by
    have hmem : root.below place ∈ found.map (·.1) := hplaces ▸ List.mem_map_of_mem hplace
    obtain ⟨x, hx, hpath⟩ := List.mem_map.mp hmem
    exact hpath ▸ (hfits x hx).2
  -- nothing that can be reached is missed, since it can be reached in all trees that the walk sees
  have hcomplete (place : Location) (hplace : Reachable ⟨w.tree, s.cwd⟩ root place)
      (haccepts : selection.accepts (root.below place) = true) : place ∈ places := by
    have hmoments : ∀ t ∈ moments found w', Reachable ⟨t, s.cwd⟩ root place := by
      intro t ht
      obtain ht | ht := List.mem_append.mp ht
      · obtain ⟨x, hx, rfl⟩ := List.mem_map.mp ht
        exact hstill x hx ▸ hplace
      · obtain rfl := List.mem_singleton.mp ht
        exact hend ▸ hplace
    have hmem : root.below place ∈ found.map (·.1) :=
      (reaches_targets haccepts w hplace).mem hyields rfl (targets_idle s root selection) hmoments
    rw [hplaces] at hmem
    obtain ⟨place', hplace', hpath⟩ := List.mem_map.mp hmem
    exact Path.below_injective root hpath ▸ hplace'
  refine ⟨places, ?_, hsorted, nodup_of_places rfl hsorted, fun place => ?_, ?_, ?_⟩
  · rw [hforeseen.toList w (.refl w.tree), hsurvey]
  · constructor
    · intro hplace
      exact ⟨hreachable place hplace, haccepts place hplace⟩
    · rintro ⟨hplace, hselected⟩
      exact hcomplete place hplace hselected
  · intro place hplace
    exact (hreachable place hplace).status_eq
  · intro cause hmissing
    rw [survey_of_missing hmissing] at hsurvey
    exact List.map_eq_nil_iff.mp hsurvey.symm

/-- What a survey finds has places below its root: in order, those that can be reached and that the
selection accepts. -/
theorem exists_places (s : Setting σ) (root : Path) (selection : Selection) (w : World σ) :
    ∃ places : List Location, survey ⟨w.tree, s.cwd⟩ root selection = places.map root.below ∧
      places.Pairwise Location.Before ∧
      ∀ place, place ∈ places ↔
        Reachable ⟨w.tree, s.cwd⟩ root place ∧ selection.accepts (root.below place) = true := by
  obtain ⟨found, w', hyields, hmembers, hstill, hend⟩ :=
    (foreseen_survey w.tree s root selection).yields w (.refl w.tree)
  obtain ⟨⟨places, hplaces, hsorted, -⟩, hfits⟩ := places_of_finds hyields none (finds_targets w)
  have hmem (place : Location) : place ∈ places ↔ root.below place ∈ found.map (·.1) := by
    rw [hplaces]
    refine ⟨List.mem_map_of_mem, fun h => ?_⟩
    obtain ⟨place', hplace', hbelow⟩ := List.mem_map.mp h
    exact Path.below_injective root hbelow ▸ hplace'
  refine ⟨places, hmembers.symm.trans hplaces, hsorted, fun place => (hmem place).trans ?_⟩
  constructor
  · intro hfound
    obtain ⟨x, hx, hpath⟩ := List.mem_map.mp hfound
    obtain ⟨place', hbelow, hreachable⟩ := of_mem_survey (hmembers ▸ hfound)
    obtain rfl := Path.below_injective root hbelow
    exact ⟨hreachable, hpath ▸ (hfits x hx).2⟩
  · rintro ⟨hreachable, haccepts⟩
    -- the walk sees one tree only
    have hmoments : ∀ t ∈ moments found w', Reachable ⟨t, s.cwd⟩ root place := by
      intro t ht
      obtain ⟨x, hx, rfl⟩ | rfl : (∃ x ∈ found, x.2.tree = t) ∨ t = w'.tree := by
        simpa [moments] using ht
      · exact hstill x hx ▸ hreachable
      · exact hend ▸ hreachable
    exact (reaches_targets haccepts w hreachable).mem hyields rfl (targets_idle s _ _) hmoments

/-- Different regular files of a tree without links, each of them given by one path. -/
structure Batch (fs : FileSystem) (files : List Path) : Prop where
  linkless : fs.tree.Linkless
  nodup : files.Nodup
  isFile : ∀ f ∈ files, fs.isFile f = true
  apart : ∀ f ∈ files, ∀ g ∈ files, ∀ loc, fs.LeadsTo f loc → fs.LeadsTo g loc → f = g

/-- Without links, the shape of a tree is enough. -/
theorem foreseen_targets (hl : t.Linkless) (s : Setting σ) (root : Path) (selection : Selection) :
    ∃ members, Foreseen t.SameShape (targets s root selection) members :=
  ⟨_, (foreseen_survey t s root selection).mono fun _ h => h.layout hl⟩

theorem batch_of_foreseen (hl : t.Linkless) {root : Path} {members : List Path}
    (h : Foreseen t.SameShape (targets s root selection) members) (w : World σ) (hw : w.tree = t) :
    Batch ⟨t, s.cwd⟩ members := by
  subst hw
  obtain ⟨found, w', hyields, rfl, hstill, -⟩ := h.yields w (.refl w.tree)
  obtain ⟨⟨places, hplaces, hsorted, -⟩, hfits⟩ := places_of_finds hyields none (finds_targets w)
  refine ⟨hl, nodup_of_places hplaces hsorted, ?_, ?_⟩
  · intro f hf
    obtain ⟨x, hx, rfl⟩ := List.mem_map.mp hf
    rw [← hstill x hx]
    exact (hfits x hx).1
  · intro f hf g hg loc hleads hleads'
    have hroot : root.bytes ≠ [] := root_of_yields hyields fun hnil => by
      rw [hnil] at hf
      cases hf
    rw [hplaces] at hf hg
    obtain ⟨p, -, rfl⟩ := List.mem_map.mp hf
    obtain ⟨q, -, rfl⟩ := List.mem_map.mp hg
    rw [hleads.below_inj hl hroot hleads']

end Groom.Walk
