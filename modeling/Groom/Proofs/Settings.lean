import Groom.Config.Reading
import Groom.Proofs.Entries
import Groom.Proofs.Keys
import Groom.Proofs.Text

/-! What a configuration file may hold, and what follows from it. Nothing that is written in a file
is passed over or taken for another thing, but for what follows the path in an array. -/
namespace Groom

namespace ConfigFile

open Toml

/-- A value that a file may give for a tool: a table with nothing but a path, or an array that
begins with the path. -/
inductive Gives : Value → Option String → Prop where
  | table {origin : Origin} {es : List (String × Value)} {path? : Option String}
      (hkeys : ∀ e ∈ es, ∃ path, e = ("path", .string path))
      (hpath : ∀ path, path? = some path ↔ ("path", .string path) ∈ es) :
      Gives (.table origin es) path?
  | array {ofTables : Bool} (path : String) (rest : List Value) :
      Gives (.array ofTables (.string path :: rest)) (some path)

theorem Gives.unique {v : Value} {path? path?' : Option String} (h : Gives v path?)
    (h' : Gives v path?') : path? = path?' := by
  cases h with
  | table _ hpath =>
    cases h' with
    | table _ hpath' => exact Option.ext fun path => (hpath path).trans (hpath' path).symm
  | array path rest =>
    cases h'
    rfl

/-- A setting that a file may hold, if these values may be given for tools. -/
inductive Fit (gives : Value → Option String → Prop) : String × Value → Prop where
  | sourceDir (text : String) : Fit gives ("source-dir", .string text)
  | muonConfig (text : String) : Fit gives ("muon-config", .string text)
  | tools {origin : Origin} {tools : List (String × Value)}
      (h : ∀ e ∈ tools, ∃ path?, gives e.2 path?) : Fit gives ("tools", .table origin tools)

variable {es : Fields} {v : Value}

theorem nodup_ordered (es : Fields) : ((ordered es).map Prod.fst).Nodup := StringMap.nodup_keys _

theorem mem_ordered (hes : es.Distinct) {e : String × Value} : e ∈ ordered es ↔ e ∈ es :=
  (StringMap.ofList_perm hes.keys).mem_iff

theorem map_text_eq_ok_iff {γ : Type} {f : String → γ} {expected : String} {c : γ} :
    (ConfigFile.text expected v).map f = .ok c ↔ ∃ text, v = .string text ∧ f text = c := by
  cases v <;> simp [ConfigFile.text, Except.map]

section Tool

/-- One entry of a table that stands for a tool. -/
def toolField (_ : ToolOverride) (entry : String × Value) : Except String ToolOverride :=
  if entry.1 = "path" then (text "a string" entry.2).map fun path => ⟨some path⟩
  else .error s!"unknown field `{entry.1}`, expected `path`"

theorem toolFields_eq (es : Fields) : toolFields es = (ordered es).foldlM toolField {} := rfl

theorem toolField_eq_ok_iff {o o' : ToolOverride} {e : String × Value} :
    toolField o e = .ok o' ↔ ∃ path, e = ("path", .string path) ∧ ⟨some path⟩ = o' := by
  obtain ⟨k, v⟩ := e
  by_cases hk : k = "path"
  · subst hk
    simp only [toolField, if_true, map_text_eq_ok_iff, Prod.mk.injEq, true_and]
  · simp [toolField, hk]

theorem toolFields_ok_iff (hes : es.Distinct) :
    (∃ o, toolFields es = .ok o) ↔ ∀ e ∈ es, ∃ path, e = ("path", .string path) := by
  have hstep : ∀ e ∈ ordered es, ∀ o,
      (∃ o', toolField o e = .ok o') ↔ ∃ path, e = ("path", .string path) := by
    intro e _ o
    simp only [toolField_eq_ok_iff]
    exact ⟨fun ⟨_, path, he, _⟩ => ⟨path, he⟩, fun ⟨path, he⟩ => ⟨_, path, he, rfl⟩⟩
  simp only [toolFields_eq, foldlM_ok_iff _ hstep, mem_ordered hes]

theorem path_toolFields (hes : es.Distinct) {o : ToolOverride} (h : toolFields es = .ok o)
    (path : String) : o.path = some path ↔ ("path", .string path) ∈ es := by
  have hset (o : ToolOverride) (v : Value) (o' : ToolOverride)
      (h : toolField o ("path", v) = .ok o') (path : String) :
      o'.path = some path ↔ v = .string path := by
    obtain ⟨path', heq, rfl⟩ := toolField_eq_ok_iff.mp h
    obtain rfl := (Prod.mk.inj heq).2
    simp
  have hother (o : ToolOverride) (e : String × Value) (o' : ToolOverride) (hkey : e.1 ≠ "path")
      (h : toolField o e = .ok o') : o'.path = o.path := by
    obtain ⟨path, rfl, -⟩ := toolField_eq_ok_iff.mp h
    exact absurd rfl hkey
  rw [part_eq_some_iff "path" ToolOverride.path (fun v path => v = .string path) hset hother
    (nodup_ordered es) h rfl]
  simp [mem_ordered hes]

theorem toolFields_moment (text : String) (o : ToolOverride) :
    toolFields [(momentKey, .string text)] ≠ .ok o := nofun

theorem gives_of_tool (hv : v.Distinct) {o : ToolOverride} (h : tool v = .ok o) :
    Gives v o.path := by
  cases v with
  | table origin es =>
    have hes := Fields.distinct_of_table hv
    exact .table ((toolFields_ok_iff hes).mp ⟨o, h⟩) (path_toolFields hes h)
  | array ofTables items =>
    cases items with
    | nil => cases h
    | cons first rest =>
      obtain ⟨path, rfl, rfl⟩ := map_text_eq_ok_iff.mp h
      exact .array path rest
  | moment text => exact absurd h (toolFields_moment text o)
  | string | integer | float | boolean => cases h

theorem tool_ok_iff (hv : v.Distinct) : (∃ o, tool v = .ok o) ↔ ∃ path?, Gives v path? := by
  constructor
  · rintro ⟨o, h⟩
    exact ⟨_, gives_of_tool hv h⟩
  · rintro ⟨path?, h⟩
    cases h with
    | table hkeys => exact (toolFields_ok_iff (Fields.distinct_of_table hv)).mpr hkeys
    | array path rest => exact ⟨⟨some path⟩, rfl⟩

end Tool

section Tools

def toolEntry (tools : StringMap ToolOverride) (entry : String × Value) :
    Except String (StringMap ToolOverride) :=
  (tool entry.2).map fun override => tools.insert entry.1 override

theorem toolTable_eq (es : Fields) : toolTable es = (ordered es).foldlM toolEntry {} := rfl

theorem toolEntry_eq_ok_iff {tools tools' : StringMap ToolOverride} {e : String × Value} :
    toolEntry tools e = .ok tools' ↔ ∃ o, tool e.2 = .ok o ∧ tools.insert e.1 o = tools' := by
  unfold toolEntry
  cases tool e.2 <;> simp [Except.map]

theorem toolTable_ok_iff (hes : es.Distinct) :
    (∃ tools, toolTable es = .ok tools) ↔ ∀ e ∈ es, ∃ path?, Gives e.2 path? := by
  have hstep : ∀ e ∈ ordered es, ∀ tools,
      (∃ tools', toolEntry tools e = .ok tools') ↔ ∃ path?, Gives e.2 path? := by
    intro e he tools
    rw [← tool_ok_iff (hes.values e ((mem_ordered hes).mp he))]
    simp only [toolEntry_eq_ok_iff]
    exact ⟨fun ⟨_, o, h, _⟩ => ⟨o, h⟩, fun ⟨o, h⟩ => ⟨_, o, h, rfl⟩⟩
  simp only [toolTable_eq, foldlM_ok_iff _ hstep, mem_ordered hes]

/-- Each entry counts for the tool of its name. -/
theorem get?_toolTable (hes : es.Distinct) {tools : StringMap ToolOverride}
    (h : toolTable es = .ok tools) {name : String} {o : ToolOverride} :
    tools.get? name = some o ↔ ∃ v, (name, v) ∈ es ∧ tool v = .ok o := by
  have hset (tools : StringMap ToolOverride) (v : Value) (tools' : StringMap ToolOverride)
      (h : toolEntry tools (name, v) = .ok tools') (o : ToolOverride) :
      tools'.get? name = some o ↔ tool v = .ok o := by
    obtain ⟨o', ho', rfl⟩ := toolEntry_eq_ok_iff.mp h
    simp [StringMap.get?_insert_self, show tool v = .ok o' from ho']
  have hother (tools : StringMap ToolOverride) (e : String × Value)
      (tools' : StringMap ToolOverride) (hkey : e.1 ≠ name) (h : toolEntry tools e = .ok tools') :
      tools'.get? name = tools.get? name := by
    obtain ⟨o', -, rfl⟩ := toolEntry_eq_ok_iff.mp h
    exact tools.get?_insert_of_ne o' (Ne.symm hkey)
  rw [part_eq_some_iff name (·.get? name) (fun v o => tool v = .ok o) hset hother
    (nodup_ordered es) h rfl]
  simp only [mem_ordered hes]

theorem toolsOf_ok_iff (hv : v.Distinct) : (∃ tools, toolsOf v = .ok tools) ↔
    ∃ origin es, v = .table origin es ∧ ∀ e ∈ es, ∃ path?, Gives e.2 path? := by
  cases v with
  | table origin es =>
    have hes := Fields.distinct_of_table hv
    refine (toolTable_ok_iff hes).trans ⟨fun h => ⟨origin, es, rfl, h⟩, ?_⟩
    rintro ⟨_, _, heq, h⟩
    cases heq
    exact h
  | string | integer | float | boolean | moment | array =>
    constructor
    · rintro ⟨tools, h⟩
      cases h
    · rintro ⟨_, _, heq, -⟩
      cases heq

end Tools

section Whole

theorem field_eq_ok_iff {f f' : ConfigFile} {key : String} :
    f.field key v = .ok f' ↔
      (key = "source-dir" ∧ ∃ text, v = .string text ∧
        { f with sourceDir := some (.ofString text) } = f') ∨
      (key = "muon-config" ∧ ∃ text, v = .string text ∧
        { f with muonConfig := some (.ofString text) } = f') ∨
      (key = "tools" ∧ ∃ tools, toolsOf v = .ok tools ∧ { f with tools } = f') := by
  unfold field
  by_cases hs : key = "source-dir"
  · simp [hs, map_text_eq_ok_iff]
  by_cases hm : key = "muon-config"
  · simp [hm, map_text_eq_ok_iff]
  by_cases ht : key = "tools"
  · cases toolsOf v <;> simp [ht, Except.map]
  · simp [hs, hm, ht]

theorem ofTable_eq (es : Fields) :
    ofTable es = (ordered es).foldlM (fun f entry => f.field entry.1 entry.2) {} := rfl

/-- A table is a configuration exactly if it holds nothing but settings. -/
theorem ofTable_ok_iff (hes : es.Distinct) : (∃ f, ofTable es = .ok f) ↔ ∀ e ∈ es, Fit Gives e := by
  have hstep : ∀ e ∈ ordered es, ∀ f : ConfigFile,
      (∃ f', f.field e.1 e.2 = .ok f') ↔ Fit Gives e := by
    rintro ⟨key, v⟩ he f
    have hv : v.Distinct := hes.values _ ((mem_ordered hes).mp he)
    simp only [field_eq_ok_iff]
    constructor
    · rintro ⟨f', ⟨rfl, text, rfl, -⟩ | ⟨rfl, text, rfl, -⟩ | ⟨rfl, tools, htools, -⟩⟩
      · exact .sourceDir text
      · exact .muonConfig text
      · obtain ⟨origin, tools, rfl, h⟩ := (toolsOf_ok_iff hv).mp ⟨tools, htools⟩
        exact .tools h
    · intro h
      cases h with
      | sourceDir text => exact ⟨_, .inl ⟨rfl, text, rfl, rfl⟩⟩
      | muonConfig text => exact ⟨_, .inr (.inl ⟨rfl, text, rfl, rfl⟩)⟩
      | @tools origin es h =>
        obtain ⟨tools, htools⟩ := (toolsOf_ok_iff hv).mpr ⟨origin, es, rfl, h⟩
        exact ⟨_, .inr (.inr ⟨rfl, tools, htools, rfl⟩)⟩
  simp only [ofTable_eq, foldlM_ok_iff _ hstep, mem_ordered hes]

variable {f : ConfigFile}

/-- The paths that a table gives, each by one key. -/
theorem path_ofTable (hes : es.Distinct) (h : ofTable es = .ok f) {key : String}
    {part : ConfigFile → Option Path}
    (hset : ∀ (f : ConfigFile) v f', f.field key v = .ok f' →
      ∃ text, v = .string text ∧ part f' = some (.ofString text))
    (hother : ∀ (f : ConfigFile) (e : String × Value) f', e.1 ≠ key →
      f.field e.1 e.2 = .ok f' → part f' = part f)
    (hstart : part {} = none) {p : Path} :
    part f = some p ↔ ∃ text, (key, .string text) ∈ es ∧ .ofString text = p := by
  have hset' (f : ConfigFile) (v : Value) (f' : ConfigFile) (h : f.field key v = .ok f')
      (p : Path) : part f' = some p ↔ ∃ text, v = .string text ∧ .ofString text = p := by
    obtain ⟨text, rfl, hpart⟩ := hset f v f' h
    simp [hpart]
  rw [part_eq_some_iff key part _ hset' hother (nodup_ordered es) h hstart]
  simp only [mem_ordered hes]
  constructor
  · rintro ⟨_, hv, text, rfl, hp⟩
    exact ⟨text, hv, hp⟩
  · rintro ⟨text, hv, hp⟩
    exact ⟨_, hv, text, rfl, hp⟩

theorem sourceDir_ofTable (hes : es.Distinct) (h : ofTable es = .ok f) {p : Path} :
    f.sourceDir = some p ↔ ∃ text, ("source-dir", .string text) ∈ es ∧ .ofString text = p := by
  refine path_ofTable hes h (fun f v f' h => ?_) (fun f e f' hne h => ?_) rfl
  · obtain ⟨-, text, rfl, rfl⟩ | ⟨hkey, -⟩ | ⟨hkey, -⟩ := field_eq_ok_iff.mp h
    · exact ⟨text, rfl, rfl⟩
    all_goals exact absurd hkey (by decide)
  · obtain ⟨hkey, -⟩ | ⟨-, text, -, rfl⟩ | ⟨-, tools, -, rfl⟩ := field_eq_ok_iff.mp h
    · exact absurd hkey hne
    all_goals rfl

theorem muonConfig_ofTable (hes : es.Distinct) (h : ofTable es = .ok f) {p : Path} :
    f.muonConfig = some p ↔ ∃ text, ("muon-config", .string text) ∈ es ∧ .ofString text = p := by
  refine path_ofTable hes h (fun f v f' h => ?_) (fun f e f' hne h => ?_) rfl
  · obtain ⟨hkey, -⟩ | ⟨-, text, rfl, rfl⟩ | ⟨hkey, -⟩ := field_eq_ok_iff.mp h
    · exact absurd hkey (by decide)
    · exact ⟨text, rfl, rfl⟩
    · exact absurd hkey (by decide)
  · obtain ⟨-, text, -, rfl⟩ | ⟨hkey, -⟩ | ⟨-, tools, -, rfl⟩ := field_eq_ok_iff.mp h
    · rfl
    · exact absurd hkey hne
    · rfl

/-- The table of the tools is read as a whole; without one, nothing is said of any tool. -/
theorem tools_ofTable (hes : es.Distinct) (h : ofTable es = .ok f) :
    (∀ v, ("tools", v) ∈ es → toolsOf v = .ok f.tools) ∧
      ((∀ v, ("tools", v) ∉ es) → f.tools = {}) := by
  have hset (f : ConfigFile) (v : Value) (f' : ConfigFile) (h : f.field "tools" v = .ok f') :
      toolsOf v = .ok f'.tools := by
    obtain ⟨hkey, -⟩ | ⟨hkey, -⟩ | ⟨-, tools, htools, rfl⟩ := field_eq_ok_iff.mp h
    · exact absurd hkey (by decide)
    · exact absurd hkey (by decide)
    · exact htools
  have hother (f : ConfigFile) (e : String × Value) (f' : ConfigFile) (hne : e.1 ≠ "tools")
      (h : f.field e.1 e.2 = .ok f') : f'.tools = f.tools := by
    obtain ⟨-, text, -, rfl⟩ | ⟨-, text, -, rfl⟩ | ⟨hkey, -⟩ := field_eq_ok_iff.mp h
    · rfl
    · rfl
    · exact absurd hkey hne
  obtain ⟨hmem, hnone⟩ := part_of_foldlM "tools" ConfigFile.tools
    (fun v tools => toolsOf v = .ok tools) hset hother (nodup_ordered es) h
  simp only [mem_ordered hes] at hmem hnone
  exact ⟨hmem, hnone⟩

/-- The paths of tools that a table gives. -/
theorem path_tools_ofTable (hes : es.Distinct) (h : ofTable es = .ok f) {name path : String} :
    (f.tools.get? name).bind ToolOverride.path = some path ↔
      ∃ origin tools v, ("tools", .table origin tools) ∈ es ∧ (name, v) ∈ tools ∧
        Gives v (some path) := by
  obtain ⟨hmem, hnone⟩ := tools_ofTable hes h
  constructor
  · intro hpath
    obtain ⟨o, hget, hpath⟩ := Option.bind_eq_some_iff.mp hpath
    by_cases hthere : ∃ v, ("tools", v) ∈ es
    · obtain ⟨v, hv⟩ := hthere
      obtain ⟨origin, tools, rfl, -⟩ := (toolsOf_ok_iff (hes.values _ hv)).mp ⟨_, hmem v hv⟩
      have htools := Fields.distinct_of_table (hes.values _ hv)
      obtain ⟨v, hin, htool⟩ := (get?_toolTable htools (hmem _ hv)).mp hget
      exact ⟨origin, tools, v, hv, hin, hpath ▸ gives_of_tool (htools.values _ hin) htool⟩
    · rw [hnone fun v hv => hthere ⟨v, hv⟩] at hget
      cases hget
  · rintro ⟨origin, tools, v, hv, hin, hgives⟩
    have htools := Fields.distinct_of_table (hes.values _ hv)
    have hdistinct : v.Distinct := htools.values _ hin
    obtain ⟨o, ho⟩ := (tool_ok_iff hdistinct).mpr ⟨_, hgives⟩
    rw [(get?_toolTable htools (hmem _ hv)).mpr ⟨v, hin, ho⟩]
    exact (gives_of_tool hdistinct ho).unique hgives

end Whole

end ConfigFile

namespace ProjectConfig

open Toml ConfigFile

theorem get?_overridePaths (tools : StringMap ToolOverride) (paths : ToolPaths) (name : String) :
    (overridePaths tools paths).get? name =
      ((tools.get? name).bind ToolOverride.path).or (paths.get? name) := by
  have hfold (step : ToolPaths → String × ToolOverride → ToolPaths)
      (hstep : ∀ paths e, (step paths e).get? name =
        if e.1 = name then e.2.path.or (paths.get? name) else paths.get? name)
      (es : List (String × ToolOverride)) (hkeys : (es.map Prod.fst).Nodup) (paths : ToolPaths) :
      (es.foldl step paths).get? name =
        ((StringMap.look name es).bind ToolOverride.path).or (paths.get? name) := by
    induction es generalizing paths with
    | nil => rfl
    | cons e rest ih =>
      obtain ⟨hnew, hrest⟩ := List.nodup_cons.mp hkeys
      rw [List.foldl_cons, ih hrest, hstep]
      by_cases hname : e.1 = name
      · have hlater : StringMap.look name rest = none := StringMap.look_eq_none (hname ▸ hnew)
        simp [StringMap.look, hlater, hname]
      · simp [StringMap.look, hname]
  unfold overridePaths
  refine hfold _ (fun paths e => ?_) tools.entries tools.nodup_keys paths
  by_cases hname : e.1 = name
  · subst hname
    cases hpath : e.2.path <;> simp [StringMap.get?_insert_self]
  · have hne : name ≠ e.1 := Ne.symm hname
    cases hpath : e.2.path <;> simp [hname, StringMap.get?_insert_of_ne _ _ hne]

/-- A layout that says for a project what a table of settings says, and nothing else. -/
structure Follows (es : Fields) (root : Path) (c : ProjectConfig) : Prop where
  sameRoot : c.root = root
  sourceDir : ∀ text, ("source-dir", .string text) ∈ es → c.sourceDir = root.join (.ofString text)
  defaultSourceDir : (∀ v, ("source-dir", v) ∉ es) → c.sourceDir = root.join (.ofString "src")
  muonConfig : ∀ text, ("muon-config", .string text) ∈ es →
    c.muonConfig = root.join (.ofString text)
  defaultMuonConfig : (∀ v, ("muon-config", v) ∉ es) →
    c.muonConfig = root.join (.ofString ".muon.ini")
  tools : ∀ name path, c.tools.get? name = some path ↔
    ∃ origin tools v, ("tools", .table origin tools) ∈ es ∧ (name, v) ∈ tools ∧
      Gives v (some path)

/-- A part of a layout that a file may give is what it gives, or what it was. -/
theorem given_or_default {given : Option Path} {key : String} {es : Fields} (root default : Path)
    (hgiven : ∀ p, given = some p ↔ ∃ text, (key, .string text) ∈ es ∧ .ofString text = p) :
    (∀ text, (key, .string text) ∈ es →
      (given.map root.join).getD default = root.join (.ofString text)) ∧
    ((∀ v, (key, v) ∉ es) → (given.map root.join).getD default = default) := by
  constructor
  · intro text hin
    rw [(hgiven _).mpr ⟨text, hin, rfl⟩]
    rfl
  · intro habsent
    cases given with
    | none => rfl
    | some p =>
      obtain ⟨text, hin, -⟩ := (hgiven p).mp rfl
      exact absurd hin (habsent _)

theorem follows_apply {es : Fields} (hes : es.Distinct) {f : ConfigFile} (h : ofTable es = .ok f)
    (root : Path) : Follows es root ((default root).apply f) := by
  obtain ⟨hsource, hdefault⟩ := given_or_default root (root.join (.ofString "src"))
    fun _ => sourceDir_ofTable hes h
  obtain ⟨hmuon, hdefault'⟩ := given_or_default root (root.join (.ofString ".muon.ini"))
    fun _ => muonConfig_ofTable hes h
  refine ⟨rfl, hsource, hdefault, hmuon, hdefault', fun name path => ?_⟩
  have hget := get?_overridePaths f.tools {} name
  rw [show ((default root).apply f).tools.get? name = _ from hget, ← path_tools_ofTable hes h]
  simp [StringMap.get?, StringMap.look]

theorem load_of_text {fs : FileSystem} {root : Path} {text : String} {x : Bool}
    (h : fs.status (filePath root) = .ok (.file (Bytes.ofString text) x)) :
    load fs root = match ConfigFile.ofText text with
      | .error fault => .error (.invalid (filePath root) fault)
      | .ok f => .ok ((default root).apply f) := by
  have hfile : fs.isFile (filePath root) = true := by simp [FileSystem.isFile, h]
  have hread : fs.readText (filePath root) = .ok text :=
    FileSystem.readText_eq_ok_iff.mpr (.inr ⟨x, h⟩)
  cases hf : ConfigFile.ofText text <;> simp only [load, if_pos hfile, hread, hf]

/-- A project is laid out as its configuration file says. Without one it has the default layout. One
that is no text, or holds anything but settings, is refused. Otherwise every setting in it counts.
-/
theorem load_follows_file (fs : FileSystem) (root : Path) :
    (fs.isFile (filePath root) = false → load fs root = .ok (default root)) ∧
    (∀ content x, fs.status (filePath root) = .ok (.file content x) →
      (¬∃ text, content = Bytes.ofString text) →
        load fs root = .error (.unreadable (filePath root) .notText)) ∧
    ∀ text x, fs.status (filePath root) = .ok (.file (Bytes.ofString text) x) →
      (parse? text = none → load fs root = .error (.invalid (filePath root) .malformed)) ∧
      ∀ es, parse? text = some es →
        ((∃ c, load fs root = .ok c) ↔ ∀ e ∈ es, Fit Gives e) ∧
        (¬(∀ e ∈ es, Fit Gives e) →
          ∃ fault, load fs root = .error (.invalid (filePath root) fault)) ∧
        ∀ c, load fs root = .ok c → Follows es root c := by
  refine ⟨fun h => ?_, fun content x hs htext => ?_, fun text x hs => ⟨fun hparse => ?_, ?_⟩⟩
  · simp [load, h]
  · have hfile : fs.isFile (filePath root) = true := by simp [FileSystem.isFile, hs]
    have hdecode : Utf8.decode? content = none := by
      refine Option.eq_none_iff_forall_ne_some.mpr fun text h => ?_
      exact htext ⟨text, Utf8.decode?_eq_some_iff.mp h⟩
    have hread : fs.readText (filePath root) = .error .notText := by
      simp only [FileSystem.readText, FileSystem.read, hs, hdecode]
    simp only [load, if_pos hfile, hread]
  · rw [load_of_text hs, ConfigFile.ofText, hparse]
  · intro es hparse
    have hes : es.Distinct := parse?_distinct hparse
    rw [← ofTable_ok_iff hes]
    cases hf : ofTable es with
    | ok f =>
      have hload : load fs root = .ok ((default root).apply f) := by
        simp only [load_of_text hs, ConfigFile.ofText, hparse, hf]
      refine ⟨⟨fun _ => ⟨f, rfl⟩, fun _ => ⟨_, hload⟩⟩, fun hno => absurd ⟨f, rfl⟩ hno, ?_⟩
      intro c hc
      obtain rfl := Except.ok.inj (hload.symm.trans hc)
      exact follows_apply hes hf root
    | error detail =>
      have hload : ∃ fault, load fs root = .error (.invalid (filePath root) fault) := by
        simp only [load_of_text hs, ConfigFile.ofText, hparse, hf]
        exact ⟨_, rfl⟩
      obtain ⟨fault, hload⟩ := hload
      refine ⟨⟨?_, ?_⟩, fun _ => ⟨fault, hload⟩, ?_⟩
      · rintro ⟨c, hc⟩
        cases hload.symm.trans hc
      · rintro ⟨f, hf⟩
        cases hf
      · intro c hc
        cases hload.symm.trans hc

/-- The same values for a tool, where an array holds the path and nothing else. -/
def GivesAlone (v : Value) (path? : Option String) : Prop :=
  Gives v path? ∧ ∀ ofTables items, v = .array ofTables items → items.length = 1

/-- Whether some tool is given an array that does not hold just one item. -/
def hasSurplus (es : Fields) : Bool :=
  es.any fun e => match e.2 with
    | .table _ tools => tools.any fun e => match e.2 with
      | .array _ items => items.length ≠ 1
      | _ => false
    | _ => false

theorem not_alone_of_hasSurplus {es : Fields} (h : hasSurplus es = true) :
    ¬∀ e ∈ es, Fit GivesAlone e := by
  intro hfit
  obtain ⟨e, he, h⟩ := List.any_eq_true.mp h
  cases hfit e he with
  | sourceDir | muonConfig => cases h
  | tools hgives =>
    obtain ⟨e, he, h⟩ := List.any_eq_true.mp h
    obtain ⟨path?, -, halone⟩ := hgives e he
    split at h
    · rename_i ofTables items hv
      exact of_decide_eq_true h (halone ofTables items hv)
    · cases h

/-- In an array that stands for a tool, all items after the path are passed over without notice. -/
theorem surplus_items_pass :
    let text := "[tools]\nmuon = [\"x\", \"y\"]"
    let t : Tree := ⟨[(⟨Bytes.ofString "tidyup.toml", by decide⟩,
      .file (Bytes.ofString text) false)], []⟩
    load ⟨t, ⟨[], 0⟩⟩ (.ofString "/") = .ok ((default (.ofString "/")).withTool "muon" "x") ∧
    ∃ es, parse? text = some es ∧ ¬∀ e ∈ es, Fit GivesAlone e := by
  intro text t
  have hload : (load ⟨t, ⟨[], 0⟩⟩ (.ofString "/")).toOption =
      some ((default (.ofString "/")).withTool "muon" "x") := by
    decide +kernel
  have hsurplus : (parse? text).map hasSurplus = some true := by decide +kernel
  constructor
  · cases hc : load ⟨t, ⟨[], 0⟩⟩ (.ofString "/") with
    | ok c =>
      rw [hc] at hload
      exact congrArg Except.ok (Option.some.inj hload)
    | error e =>
      rw [hc] at hload
      cases hload
  · obtain ⟨es, hparse, h⟩ := Option.map_eq_some_iff.mp hsurplus
    exact ⟨es, hparse, not_alone_of_hasSurplus h⟩

end ProjectConfig

end Groom
