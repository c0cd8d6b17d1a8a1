import Groom.Proofs.Settings

/-! Configuration files one after another. A later file counts before an earlier one, setting by
setting; so applying two files is applying the one that merges them. -/
namespace Groom

namespace StringMap

variable {α β : Type}

theorem nodup_entries (m : StringMap α) : m.entries.Nodup := by
  refine m.sorted.imp fun {e f} h heq => ?_
  exact String.lt_irrefl f.1 (heq ▸ h)

/-- Maps that answer alike are the same: their entries are in order. -/
theorem ext_get? {m n : StringMap α} (h : ∀ key, m.get? key = n.get? key) : m = n := by
  have hmem (e : String × α) : e ∈ m.entries ↔ e ∈ n.entries := by
    rw [mem_entries_iff, mem_entries_iff, h]
  have hperm : m.entries.Perm n.entries :=
    (List.perm_ext_iff_of_nodup m.nodup_entries n.nodup_entries).mpr hmem
  have hentries : m.entries = n.entries := by
    refine hperm.eq_of_pairwise (fun e f _ _ hef hfe => ?_) m.sorted n.sorted
    exact absurd (String.lt_trans hef hfe) (String.lt_irrefl e.1)
  cases m
  cases n
  cases hentries
  rfl

/-- The same keys with other values. -/
def map (m : StringMap α) (f : α → β) : StringMap β where
  entries := m.entries.map fun e => (e.1, f e.2)
  sorted := List.pairwise_map.mpr m.sorted

theorem get?_map (m : StringMap α) (f : α → β) (key : String) :
    (m.map f).get? key = (m.get? key).map f := by
  show look key (m.entries.map fun e => (e.1, f e.2)) = (look key m.entries).map f
  induction m.entries with
  | nil => rfl
  | cons e rest ih => by_cases hk : e.1 = key <;> simp [look, hk, ih]

end StringMap

namespace ConfigFile

/-- The program that a file gives for a tool. An entry without a path gives none. -/
def toolPath? (f : ConfigFile) (tool : String) : Option String :=
  (f.tools.get? tool).bind ToolOverride.path

/-- What a file says that merges an earlier and a later one. -/
structure Merges (earlier later merged : ConfigFile) : Prop where
  sourceDir : merged.sourceDir = later.sourceDir.or earlier.sourceDir
  muonConfig : merged.muonConfig = later.muonConfig.or earlier.muonConfig
  toolPath? : ∀ tool,
    merged.toolPath? tool = (later.toolPath? tool).or (earlier.toolPath? tool)

/-- All that an earlier and a later file say, where the later one counts before the earlier one. -/
def merge (earlier later : ConfigFile) : ConfigFile where
  sourceDir := later.sourceDir.or earlier.sourceDir
  muonConfig := later.muonConfig.or earlier.muonConfig
  tools := (ProjectConfig.overridePaths later.tools
    (ProjectConfig.overridePaths earlier.tools .empty)).map fun path => ⟨some path⟩

theorem merges_merge (f g : ConfigFile) : Merges f g (f.merge g) where
  sourceDir := rfl
  muonConfig := rfl
  toolPath? tool := by
    have hnone : StringMap.get? (.empty : ToolPaths) tool = none := rfl
    have htool : (f.merge g).tools.get? tool =
        ((g.toolPath? tool).or (f.toolPath? tool)).map fun path => ⟨some path⟩ := by
      let paths : ToolPaths :=
        ProjectConfig.overridePaths g.tools (ProjectConfig.overridePaths f.tools .empty)
      calc (f.merge g).tools.get? tool
          = (paths.get? tool).map fun path => ⟨some path⟩ := StringMap.get?_map ..
        _ = ((g.toolPath? tool).or ((f.toolPath? tool).or none)).map fun path => ⟨some path⟩ := by
            rw [ProjectConfig.get?_overridePaths, ProjectConfig.get?_overridePaths, hnone]
            rfl
        _ = _ := by rw [Option.or_none]
    show ((f.merge g).tools.get? tool).bind ToolOverride.path = _
    rw [htool]
    cases (g.toolPath? tool).or (f.toolPath? tool) <;> rfl

end ConfigFile

namespace ProjectConfig

open ConfigFile (Merges)

variable {c : ProjectConfig} {f g m : ConfigFile}

theorem get?_apply (c : ProjectConfig) (f : ConfigFile) (tool : String) :
    (c.apply f).tools.get? tool = (f.toolPath? tool).or (c.tools.get? tool) :=
  get?_overridePaths f.tools c.tools tool

/-- A place in the project that may be given twice: the last one given counts, from the root. -/
theorem getD_map_or {α β : Type} (place : α → β) (earlier later : Option α) (default : β) :
    ((later.or earlier).map place).getD default =
      (later.map place).getD ((earlier.map place).getD default) := by
  cases later <;> rfl

theorem apply_apply (h : Merges f g m) : (c.apply f).apply g = c.apply m := by
  have htools : ((c.apply f).apply g).tools = (c.apply m).tools := by
    refine StringMap.ext_get? fun tool => ?_
    rw [get?_apply, get?_apply, get?_apply, h.toolPath?, Option.or_assoc]
  have hsource : ((c.apply f).apply g).sourceDir = (c.apply m).sourceDir := by
    show _ = (m.sourceDir.map c.root.join).getD c.sourceDir
    rw [h.sourceDir, getD_map_or]
    rfl
  have hmuon : ((c.apply f).apply g).muonConfig = (c.apply m).muonConfig := by
    show _ = (m.muonConfig.map c.root.join).getD c.muonConfig
    rw [h.muonConfig, getD_map_or]
    rfl
  calc (c.apply f).apply g
      = ⟨c.root, ((c.apply f).apply g).sourceDir, ((c.apply f).apply g).muonConfig,
          ((c.apply f).apply g).tools⟩ := rfl
    _ = c.apply m := by
      rw [hsource, hmuon, htools]
      rfl

/-- Files act on layouts. Applying two of them is applying any one that merges them, and there is
such a file; the empty file changes nothing. The root stays, and what a file does not give is as it
was. The places that it gives are seen from the root, whatever was given before. -/
theorem apply_acts_by_merging (c : ProjectConfig) (f g : ConfigFile) :
    Merges f g (f.merge g) ∧ (∀ m, Merges f g m → (c.apply f).apply g = c.apply m) ∧
    c.apply {} = c ∧ (c.apply f).root = c.root ∧
    (c.apply f).sourceDir = (match f.sourceDir with
      | some dir => c.root.join dir
      | none => c.sourceDir) ∧
    (c.apply f).muonConfig = (match f.muonConfig with
      | some file => c.root.join file
      | none => c.muonConfig) ∧
    ∀ tool, (c.apply f).tools.get? tool = match f.toolPath? tool with
      | some path => some path
      | none => c.tools.get? tool := by
  refine ⟨ConfigFile.merges_merge f g, fun m => apply_apply, rfl, rfl, ?_, ?_, fun tool => ?_⟩
  · cases hdir : f.sourceDir <;> simp [apply, hdir]
  · cases hfile : f.muonConfig <;> simp [apply, hfile]
  · rw [get?_apply]
    cases f.toolPath? tool <;> rfl

/-- Two files for one project. The second one has an entry for a tool without a path, which leaves
the path of the first one. -/
theorem settings_of_two_files :
    let f : ConfigFile := ⟨some (.ofString "daemon"), none,
      StringMap.ofList [("muon", ⟨some "/opt/muon"⟩), ("yapf", ⟨some "/opt/yapf"⟩)]⟩
    let g : ConfigFile := ⟨some (.ofString "lib"), some (.ofString "fmt.ini"),
      StringMap.ofList [("muon", ⟨none⟩), ("yapf", ⟨some "yapf3"⟩)]⟩
    let m : ConfigFile := ⟨some (.ofString "lib"), some (.ofString "fmt.ini"),
      StringMap.ofList [("muon", ⟨some "/opt/muon"⟩), ("yapf", ⟨some "yapf3"⟩)]⟩
    let c := default (.ofString "/p")
    Merges f g m ∧ (c.apply f).apply g = c.apply m ∧
      (c.apply m).sourceDir = .ofString "/p/lib" := by
  intro f g m c
  have hmerges : Merges f g m := by
    refine ⟨rfl, rfl, fun tool => ?_⟩
    by_cases hmuon : tool = "muon"
    · subst hmuon
      decide
    by_cases hyapf : tool = "yapf"
    · subst hyapf
      decide
    -- the files say nothing of any other tool
    have hother {a b : ToolOverride} :
        (StringMap.ofList [("muon", a), ("yapf", b)]).get? tool = none := by
      show (((({} : StringMap ToolOverride).insert "muon" a).insert "yapf" b).get? tool) = none
      rw [StringMap.get?_insert_of_ne _ _ hyapf, StringMap.get?_insert_of_ne _ _ hmuon]
      rfl
    simp [ConfigFile.toolPath?, f, g, m, hother]
  exact ⟨hmerges, (apply_acts_by_merging c f g).2.1 m hmerges, by decide⟩

end ProjectConfig

end Groom
