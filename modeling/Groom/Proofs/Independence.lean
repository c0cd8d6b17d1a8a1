import Mathlib.Data.List.Pairwise
import Groom.Proofs.Edits
import Groom.Proofs.Refusals

/-! Formatting steps in any order. The selections of the formatters go by the file name, no two of
them accept the same one, and in a tree without links a file has one name. So no formatter comes to
a file of another one, and their order makes no difference. -/
namespace Groom

variable {σ : Type}

theorem Name.bytes_of_ofBytes? {bs : Bytes} {n : Name} (h : ofBytes? bs = some n) :
    n.bytes = bs := by
  unfold ofBytes? at h
  split at h
  · cases h
    rfl
  · cases h

namespace Path

/-- The file name of a path is its last stretch that counts. -/
theorem steps_of_fileName {p : Path} {name : Bytes} (h : p.fileName? = some name) :
    ∃ front blanks, Resolution.steps p = front ++ name :: blanks ∧
      (∀ stretch ∈ blanks, stretch = [] ∨ stretch = [Bytes.dot]) ∧
      name ≠ [] ∧ name ≠ [Bytes.dot] ∧ name ≠ [Bytes.dot, Bytes.dot] := by
  have hcomponents : p.components.getLast? = some (.name name) := by
    unfold fileName? at h
    split at h
    · rename_i heq
      exact Option.some.inj h ▸ heq
    · cases h
  -- whatever a path starts with, its last component is a name only if its last step is one
  have hlast : ((p.segments.map Component.ofSegment).filter (· ≠ .here)).getLast? =
      some (.name name) := by
    have hopened (c : Component) (hc : c ≠ .name name) {counted : List Component}
        (hcounted : (c :: counted).getLast? = some (.name name)) :
        counted.getLast? = some (.name name) := by
      cases counted with
      | nil => exact absurd (Option.some.inj hcounted) hc
      | cons d rest => rwa [List.getLast?_cons_cons] at hcounted
    unfold components at hcomponents
    dsimp only at hcomponents
    split at hcomponents
    · exact hopened .root nofun hcomponents
    · split at hcomponents
      · rename_i rest heq
        rw [heq]
        simpa using hopened .here nofun hcomponents
      · exact hcomponents
  rw [List.getLast?_filter] at hlast
  obtain ⟨-, after, before, hsplit, hblanks⟩ := List.find?_eq_some_iff_append.mp hlast
  have hsegments : p.segments.map Component.ofSegment =
      before.reverse ++ .name name :: after.reverse := by
    rw [← List.reverse_inj, hsplit]
    simp
  obtain ⟨front, others, hp, -, hothers⟩ := List.map_eq_append_iff.mp hsegments
  obtain ⟨last, dots, rfl, hname, hdots⟩ := List.map_eq_cons_iff.mp hothers
  have hsegment {stretch : Bytes} (hmem : stretch ∈ p.segments) : stretch ≠ [] := by
    simpa using List.of_mem_filter hmem
  have hmem : last ∈ p.segments := by simp [hp]
  have hstretch : last = name ∧ last ≠ [Bytes.dot] ∧ last ≠ [Bytes.dot, Bytes.dot] := by
    unfold Component.ofSegment at hname
    split at hname
    · cases hname
    · split at hname
      · cases hname
      · exact ⟨Component.name.inj hname, ‹_›, ‹_›⟩
  obtain ⟨rfl, hdot, hup⟩ := hstretch
  have hblank : ∀ stretch ∈ dots, stretch = [] ∨ stretch = [Bytes.dot] := by
    intro stretch hstretch
    have hhere : Component.ofSegment stretch = .here := by
      have hcomponent : Component.ofSegment stretch ∈ after := by
        rw [← List.mem_reverse, ← hdots]
        exact List.mem_map_of_mem hstretch
      simpa using hblanks _ hcomponent
    unfold Component.ofSegment at hhere
    split at hhere
    · exact .inr ‹_›
    · split at hhere <;> cases hhere
  unfold Resolution.steps
  split
  · refine ⟨front, dots ++ [[]], by simp [hp], ?_, hsegment hmem, hdot, hup⟩
    intro stretch hstretch
    obtain h | h := List.mem_append.mp hstretch
    · exact hblank stretch h
    · exact .inl (List.mem_singleton.mp h)
  · exact ⟨front, dots, hp, hblank, hsegment hmem, hdot, hup⟩

end Path

namespace Resolution

variable {t : Tree}

/-- No way along segments ends at a link in a tree that has none. -/
theorem advance_of_linkless (hl : t.Linkless) (here : Location) (todo : List Bytes)
    {dir : Location} {path : Bytes} {rest : List Bytes} :
    advance t .follow here todo ≠ .ok (.link dir path rest) := by
  intro h
  induction todo generalizing here with
  | nil =>
    simp only [advance] at h
    split at h <;> cases h
  | cons x xs ih =>
    simp only [advance, reduceCtorEq, and_false, if_false] at h
    repeat' split at h
    all_goals first
      | exact ih _ h
      | cases h
    exact hl.find?_ne_link ‹_› _ _ ‹_›

/-- So a path leads where the way along its steps ends. -/
theorem resolveFrom_of_linkless (hl : t.Linkless) {links : Nat} {here loc : Location}
    {todo : List Bytes} {node : Node}
    (h : resolveFrom t .follow links here todo = .ok (.entry loc node)) :
    advance t .follow here todo = .ok (.arrived (.entry loc node)) := by
  rw [resolveFrom_eq] at h
  split at h
  · cases h
  · rename_i target hadvance
    exact hadvance.trans (congrArg (Except.ok ∘ Progress.arrived) (Except.ok.inj h))
  · exact absurd ‹_› (advance_of_linkless hl here todo)

/-- Empty stretches and single dots lead nowhere else. -/
theorem advance_blanks {here loc : Location} {blanks : List Bytes} {node : Node}
    (hblanks : ∀ stretch ∈ blanks, stretch = [] ∨ stretch = [Bytes.dot])
    (h : advance t .follow here blanks = .ok (.arrived (.entry loc node))) : loc = here := by
  induction blanks with
  | nil =>
    simp only [advance] at h
    split at h
    · cases h
      rfl
    · cases h
  | cons stretch rest ih =>
    obtain ⟨hstretch, hrest⟩ := List.forall_mem_cons.mp hblanks
    simp only [advance, if_pos hstretch] at h
    split at h
    · exact ih hrest h
    · cases h
    · cases h

/-- A way that ends in a name leads to an entry of that name. -/
theorem name_of_advance {here loc : Location} {front blanks : List Bytes}
    {name : Bytes} {node : Node}
    (hblanks : ∀ stretch ∈ blanks, stretch = [] ∨ stretch = [Bytes.dot])
    (hname : name ≠ [] ∧ name ≠ [Bytes.dot] ∧ name ≠ [Bytes.dot, Bytes.dot])
    (h : advance t .follow here (front ++ name :: blanks) = .ok (.arrived (.entry loc node))) :
    ∃ dir n, n.bytes = name ∧ loc = dir ++ [n] := by
  obtain ⟨hempty, hdot, hdots⟩ := hname
  rw [advance_append (by decide) (List.cons_ne_nil name blanks)] at h
  split at h
  · rename_i dir above _
    simp only [advance, hempty, hdot, hdots, or_self, if_false, reduceCtorEq, and_false,
      false_and] at h
    repeat' split at h
    all_goals first
      | exact ⟨dir, _, Name.bytes_of_ofBytes? ‹_›, advance_blanks hblanks h⟩
      | cases h
  · cases h
  · cases h
  · cases h

/-- A way that starts in a directory which is gone comes to nothing before it has left it. -/
theorem name_of_resolveBelow (hl : t.Linkless) {lost : Nat} {here loc : Location}
    {front blanks : List Bytes} {name : Bytes} {node : Node}
    (hblanks : ∀ stretch ∈ blanks, stretch = [] ∨ stretch = [Bytes.dot])
    (hname : name ≠ [] ∧ name ≠ [Bytes.dot] ∧ name ≠ [Bytes.dot, Bytes.dot])
    (h : resolveBelow t .follow lost here (front ++ name :: blanks) = .ok (.entry loc node)) :
    ∃ dir n, n.bytes = name ∧ loc = dir ++ [n] := by
  induction front generalizing lost here with
  | nil =>
    cases lost with
    | zero =>
      rw [resolveBelow] at h
      exact name_of_advance hblanks hname (resolveFrom_of_linkless hl h)
    | succ lost =>
      obtain ⟨hempty, hdot, hdots⟩ := hname
      simp [resolveBelow, hempty, hdot, hdots] at h
  | cons stretch front ih =>
    cases lost with
    | zero =>
      rw [resolveBelow] at h
      exact name_of_advance hblanks hname (resolveFrom_of_linkless hl h)
    | succ lost =>
      rw [List.cons_append, resolveBelow] at h
      split at h
      · exact ih h
      · split at h
        · exact ih h
        · cases h

end Resolution

/-- In a tree without links, a path leads to an entry of the name that it ends in. -/
theorem FileSystem.LeadsTo.name {fs : FileSystem} (hl : fs.tree.Linkless) {p : Path}
    {loc : Location} {name : Bytes} (h : fs.LeadsTo p loc) (hname : p.fileName? = some name) :
    ∃ dir n, n.bytes = name ∧ loc = dir ++ [n] := by
  obtain ⟨front, blanks, hsteps, hblanks, hproper⟩ := Path.steps_of_fileName hname
  obtain ⟨node, hr⟩ := ofPath_of_leadsTo h
  unfold Resolution.ofPath at hr
  cases hv : Resolution.validate p with
  | error e =>
    rw [hv] at hr
    cases hr
  | ok _ =>
    rw [hv, hsteps] at hr
    change (if p.isAbsolute then _ else _) = _ at hr
    split at hr
    · exact Resolution.name_of_advance hblanks hproper (Resolution.resolveFrom_of_linkless hl hr)
    · exact Resolution.name_of_resolveBelow hl hblanks hproper hr

/-- So paths to one file have one file name, if they have any. -/
theorem FileSystem.Aliases.fileName {fs : FileSystem} (hl : fs.tree.Linkless) {p q : Path}
    {m n : Bytes} (h : fs.Aliases p q) (hp : p.fileName? = some m) (hq : q.fileName? = some n) :
    m = n := by
  obtain ⟨loc, hleads, hleads'⟩ := h
  obtain ⟨dir, named, rfl, rfl⟩ := hleads.name hl hp
  obtain ⟨dir', named', rfl, heq⟩ := hleads'.name hl hq
  obtain ⟨-, hlast⟩ := List.append_inj' heq rfl
  rw [List.singleton_inj.mp hlast]

namespace Selection

variable {x y : Selection} {p q : Path}

/-- A selection goes by the file name. -/
theorem accepts_congr (h : p.fileName? = q.fileName?) : x.accepts p = x.accepts q := by
  unfold accepts Path.extension?
  rw [h]

theorem fileName_of_accepts (h : x.accepts p = true) : ∃ name, p.fileName? = some name := by
  cases hname : p.fileName? with
  | some name => exact ⟨name, rfl⟩
  | none =>
    have hnone : x.accepts p = false := by
      cases x <;> simp [accepts, Path.extension?, hname]
    exact absurd (h.symm.trans hnone) (by decide)

/-- No path is accepted by both selections. -/
def Apart (x y : Selection) : Prop := ∀ p, ¬(x.accepts p = true ∧ y.accepts p = true)

theorem Apart.symm (h : x.Apart y) : y.Apart x := fun p hp => h p ⟨hp.2, hp.1⟩

theorem mem_of_accepts_suffixes {given : List String} (h : (suffixes given).accepts p = true) :
    ∃ name ext, p.fileName? = some name ∧ Path.extensionOf? name = some ext ∧
      ext ∈ given.map Bytes.ofString := by
  unfold accepts at h
  cases hext : p.extension? with
  | none => simp [hext] at h
  | some ext =>
    obtain ⟨name, hname, hext'⟩ := Option.bind_eq_some_iff.mp hext
    exact ⟨name, ext, hname, hext', by simpa [hext] using h⟩

theorem mem_of_accepts_names {given : List String} (h : (names given).accepts p = true) :
    ∃ name, p.fileName? = some name ∧ name ∈ given.map Bytes.ofString := by
  unfold accepts at h
  cases hname : p.fileName? with
  | none => simp [hname] at h
  | some name => exact ⟨name, rfl, by simpa [hname] using h⟩

/-- A file name has one extension. -/
theorem apart_suffixes {given given' : List String}
    (h : ∀ ext ∈ given.map Bytes.ofString, ext ∉ given'.map Bytes.ofString) :
    (suffixes given).Apart (suffixes given') := by
  rintro p ⟨hp, hp'⟩
  obtain ⟨name, ext, hname, hext, hmem⟩ := mem_of_accepts_suffixes hp
  obtain ⟨name', ext', hname', hext', hmem'⟩ := mem_of_accepts_suffixes hp'
  obtain rfl := Option.some.inj (hname.symm.trans hname')
  obtain rfl := Option.some.inj (hext.symm.trans hext')
  exact h ext hmem hmem'

/-- A selection by extension accepts none of some names if it has the extensions of none. -/
theorem apart_names {given given' : List String}
    (h : ∀ name ∈ given'.map Bytes.ofString, ∀ ext ∈ Path.extensionOf? name,
      ext ∉ given.map Bytes.ofString) :
    (suffixes given).Apart (names given') := by
  rintro p ⟨hp, hp'⟩
  obtain ⟨name, ext, hname, hext, hmem⟩ := mem_of_accepts_suffixes hp
  obtain ⟨name', hname', hmem'⟩ := mem_of_accepts_names hp'
  obtain rfl := Option.some.inj (hname.symm.trans hname')
  exact h name hmem' ext hext hmem

end Selection

namespace FormatStep

variable {s : Setting σ} {t : Tree} {cwd : Working} {step step' : FormatStep}

theorem accepts_of_mem_files {file : Path} (h : file ∈ step.files ⟨t, cwd⟩) :
    step.selection.accepts file = true := by
  let quiet : Setting Unit := ⟨cwd, fun _ _ tree => ⟨.ok .success, [], (), tree⟩, .willing⟩
  obtain ⟨places, hplaces, -, hmem⟩ :=
    Walk.exists_places quiet step.root step.selection ⟨t, (), []⟩
  have hfile : file ∈ places.map step.root.below := hplaces ▸ h
  obtain ⟨place, hplace, rfl⟩ := List.mem_map.mp hfile
  exact ((hmem place).mp hplace).2

/-- Steps whose selections are apart do not come to each other's files, wherever they start. -/
theorem independent_of_apart (hl : t.Linkless) (h : step.selection.Apart step'.selection) :
    Independent ⟨t, cwd⟩ step step' := by
  intro f hf g hg haliases
  have hf := accepts_of_mem_files hf
  have hg := accepts_of_mem_files hg
  obtain ⟨m, hm⟩ := Selection.fileName_of_accepts hf
  obtain ⟨n, hn⟩ := Selection.fileName_of_accepts hg
  -- they are paths to one file, so both selections go by one name
  obtain rfl : m = n := haliases.fileName hl hm hn
  have hsame := Selection.accepts_congr (x := step'.selection) (hm.trans hn.symm)
  exact h f ⟨hf, hsame.trans hg⟩

/-- The edits of independent steps make the same tree in any order. -/
theorem reviseAll_perm {steps order : List FormatStep} (h : order.Perm steps)
    (hindependent : steps.Pairwise (Independent ⟨t, cwd⟩))
    (changes : FormatStep → List (Bytes → Bytes)) :
    t.reviseAll (order.flatMap fun step => step.edits ⟨t, cwd⟩ (changes step)) =
      t.reviseAll (steps.flatMap fun step => step.edits ⟨t, cwd⟩ (changes step)) := by
  have : Std.Symm (Independent ⟨t, cwd⟩) := ⟨fun _ _ hi => hi.symm⟩
  refine (Tree.reviseAll_perm (h.symm.flatMap_right _) ?_ t).symm
  intro x hx y hy hloc
  obtain ⟨step, hstep, hx⟩ := List.mem_flatMap.mp hx
  obtain ⟨step', hstep', hy⟩ := List.mem_flatMap.mp hy
  obtain ⟨hchange, f, hf, hleads⟩ := mem_edits.mp hx
  obtain ⟨hchange', g, hg, hleads'⟩ := mem_edits.mp hy
  by_cases heq : step = step'
  · subst heq
    exact Prod.ext hloc (hchange.trans hchange'.symm)
  · have haliases : (FileSystem.mk t cwd).Aliases f g := ⟨x.1, hleads, hloc ▸ hleads'⟩
    exact absurd haliases (hindependent.forall hstep hstep' heq f hf g hg)

end FormatStep

/-- Every probe succeeds and changes no file. -/
def Setting.ProbesQuietly (s : Setting σ) : Prop :=
  ∀ program args state tree,
    (s.runner ⟨program, args, .capture⟩ state tree).answer = .ok .success ∧
      (s.runner ⟨program, args, .capture⟩ state tree).tree = tree

/-- Every program that is set to work on a file succeeds, and gives the file content that depends on
the program, its other arguments and the content alone. -/
def Setting.Transforms (s : Setting σ) (f : Path → List Bytes → Bytes → Bytes) : Prop :=
  ∀ program args (file : Path) state tree loc content executable,
    (FileSystem.mk tree s.cwd).resolve .follow file = .ok (.entry loc (.file content executable)) →
    (s.runner ⟨program, args ++ [file.bytes], .inherit⟩ state tree).answer = .ok .success ∧
      (s.runner ⟨program, args ++ [file.bytes], .inherit⟩ state tree).tree =
        tree.put loc (.file (f program args content) executable)

/-- What a transformation of contents makes of the passes of a step. -/
def FormatStep.changes (f : Path → List Bytes → Bytes → Bytes) (step : FormatStep) :
    List (Bytes → Bytes) :=
  step.passes.map fun pass => f pass.program (pass.invocationFor ⟨[]⟩).dropLast

/-- A tool that is given its target last. -/
def Tool.TargetLast (t : Tool) : Prop :=
  ∃ args, ∀ target : Path, t.invocationFor target = args ++ [target.bytes]

theorem FormatStep.reliable_of_transforms {s : Setting σ} {f : Path → List Bytes → Bytes → Bytes}
    (hprobes : s.ProbesQuietly) (hworks : s.Transforms f) {step : FormatStep}
    (hpasses : ∀ pass ∈ step.passes, pass.TargetLast) : step.Reliable s (step.changes f) where
  probes tool _ := hprobes tool.program tool.probe
  passes := by
    rw [changes, List.forall₂_map_right_iff, List.forall₂_same]
    intro pass hpass file state tree loc content executable hr
    obtain ⟨args, hargs⟩ := hpasses pass hpass
    have hwork := hworks pass.program args file state tree loc content executable hr
    rw [hargs, List.dropLast_concat, Tool.workRequest, hargs]
    exact hwork

namespace Builtin

variable (c : ProjectConfig)

/-- The formatting steps of a project. -/
def formatSteps (r : Registry) : List FormatStep :=
  [formatCpp c r, formatMeson c r, formatPython c r]

theorem apart_formatSteps (r : Registry) :
    (formatSteps c r).Pairwise fun a b => a.selection.Apart b.selection := by
  have hcpp : (formatCpp c r).selection = .suffixes ["c", "cpp", "h", "hpp"] := rfl
  have hpython : (formatPython c r).selection = .suffixes ["py"] := rfl
  have hcppMeson : (formatCpp c r).selection.Apart (formatMeson c r).selection :=
    hcpp ▸ Selection.apart_names (by decide)
  have hcppPython : (formatCpp c r).selection.Apart (formatPython c r).selection :=
    hcpp ▸ hpython ▸ Selection.apart_suffixes (by decide)
  have hmesonPython : (formatMeson c r).selection.Apart (formatPython c r).selection :=
    (hpython ▸ Selection.apart_names (by decide) :
      (formatPython c r).selection.Apart (formatMeson c r).selection).symm
  simp [formatSteps, hcppMeson, hcppPython, hmesonPython]

theorem targetLast_formatSteps (r : Registry) :
    ∀ step ∈ formatSteps c r, ∀ pass ∈ step.passes, pass.TargetLast := by
  have hlast (t : Tool) (front : List Bytes) :
      (t.withInvocation (front.map .literal ++ [.target])).TargetLast :=
    ⟨t.base ++ front, fun target => by
      simp [Tool.invocationFor, Tool.withInvocation, Arg.fill, Function.comp_def]⟩
  intro step hstep pass hpass
  simp only [formatSteps, List.mem_cons, List.not_mem_nil, or_false] at hstep
  obtain rfl | rfl | rfl := hstep
  · obtain rfl := List.mem_singleton.mp hpass
    exact hlast (r.tool .clangFormat) [Bytes.ofString "-i"]
  · obtain rfl := List.mem_singleton.mp hpass
    exact hlast (r.tool .muonFmt) [Bytes.ofString "-i", Bytes.ofString "-c", c.muonConfig.bytes]
  · obtain rfl | hpass := List.mem_cons.mp hpass
    · exact hlast (r.tool .isort) [Bytes.ofString "-q"]
    · obtain rfl := List.mem_singleton.mp hpass
      exact hlast (r.tool .yapf) [Bytes.ofString "-i"]

/-- The formatting steps of a project may be run in any order. No path is accepted by two of them.
In a tree without links, with probes that succeed and change nothing, and programs that give each
file content which depends on the program, its other arguments and the content alone, all orders end
with the same tree and with the same report for each step; the calls are the probes of each step and
then its passes on each of its files, and no file to which a path of one step leads is that of
another one. Only a report that refuses a piece of text keeps an order from its end. -/
theorem formatters_in_any_order (s : Setting σ) (w : World σ)
    (f : Path → List Bytes → Bytes → Bytes) (hlinks : w.tree.Linkless) (hprobes : s.ProbesQuietly)
    (hworks : s.Transforms f) :
    let fs := FileSystem.mk w.tree s.cwd
    let steps := formatSteps c (.ofPaths c.tools)
    (steps.Pairwise fun a b =>
      ∀ p, ¬(a.selection.accepts p = true ∧ b.selection.accepts p = true)) ∧
    (steps.Pairwise fun a b => ∀ p ∈ a.files fs, ∀ q ∈ b.files fs, ¬fs.Aliases p q) ∧
    ∃ (tree : Tree) (report : FormatStep → FormatReport), ∀ order : List FormatStep,
      order.Perm steps →
      let chain := Chain.runSteps s (order.map .format)
      s.Refused (chain.outcome w) ∨
      (chain.outcome w = .ok (order.map fun step => .formatted (report step)) ∧
      (chain.after w).tree = tree ∧
      ∃ events, (chain.after w).journal = w.journal ++ events ∧
        calls events = succeeded (order.flatMap fun step => step.probes.map Tool.probeRequest ++
          (step.files fs).flatMap fun file => step.passes.map (·.workRequest file))) := by
  intro fs steps
  have hapart := apart_formatSteps c (.ofPaths c.tools)
  have hindependent : steps.Pairwise (FormatStep.Independent fs) :=
    hapart.imp fun h => FormatStep.independent_of_apart hlinks h
  let tree := w.tree.reviseAll (steps.flatMap fun step => step.edits fs (step.changes f))
  let report (step : FormatStep) : FormatReport := step.result fs (step.changes f)
  refine ⟨hapart, hindependent, tree, report, fun order horder => ?_⟩
  intro chain
  have hreliable : ∀ step ∈ order, step.Reliable s.heard (step.changes f) := by
    intro step hstep
    have hmem : step ∈ steps := horder.mem_iff.mp hstep
    exact step.reliable_of_transforms (s := s.heard) hprobes hworks
      (targetLast_formatSteps c _ step hmem)
  have hpairs : order.Pairwise (FormatStep.Independent fs) :=
    (horder.pairwise_iff fun h => h.symm).mpr hindependent
  obtain hrefused | ⟨houtcome, hafter⟩ := Chain.formats_refusedOr s order w
  · exact .inl hrefused
  -- no piece of text was refused, so the report might as well take everything
  · have hmeets := Chain.run_independent (s := s.heard) (fun _ _ => rfl) hlinks hreliable hpairs
    obtain ⟨events, hj, hcalls, hr, htree⟩ := hmeets
    have hjournal : (chain.after w).journal = w.journal ++ events := by rw [hafter, hj]
    have hdone : (chain.after w).tree = tree := by
      rw [hafter, htree]
      exact FormatStep.reviseAll_perm horder hindependent fun step => step.changes f
    refine .inr ⟨houtcome.trans hr, hdone, events, hjournal, ?_⟩
    rw [← calls_deeds, hcalls]
    rfl

/-- A project whose files all lie in its root, and programs that each add a byte of their own. The
last formatter goes first, and the tree that it leaves in the end is the same. -/
theorem formatters_turned_round :
    let file (content : Bytes) : Node := .file content false
    let f (program : Path) (_ : List Bytes) (content : Bytes) : Bytes :=
      content ++ [program.bytes.length.toUInt8]
    let s : Setting Unit := ⟨⟨[], 0⟩, fun request _ tree => ⟨.ok .success, [], (),
      match request.output, request.args.getLast? with
      | .inherit, some target =>
        match (FileSystem.mk tree ⟨[], 0⟩).resolve .follow ⟨target⟩ with
        | .ok (.entry loc (.file content executable)) =>
          tree.put loc (.file (f request.program [] content) executable)
        | _ => tree
      | _, _ => tree⟩, .willing⟩
    let c : ProjectConfig :=
      { ProjectConfig.default (.ofString "/") with sourceDir := .ofString "/" }
    let w : World Unit := ⟨⟨[(⟨Bytes.ofString "b.py", by decide⟩, file [2]),
      (⟨Bytes.ofString "meson.build", by decide⟩, file [3]),
      (⟨Bytes.ofString "a.h", by decide⟩, file [4])], []⟩, (), []⟩
    let r := Registry.ofPaths c.tools
    let steps := [formatCpp c r, formatMeson c r, formatPython c r]
    let turned := [formatPython c r, formatMeson c r, formatCpp c r]
    let chain (order : List FormatStep) := Chain.runSteps s (order.map .format)
    w.tree.Linkless ∧ s.ProbesQuietly ∧ s.Transforms f ∧
      ((chain steps).after w).tree = ((chain turned).after w).tree ∧
      (∃ cpp meson python, (chain steps).outcome w = .ok [cpp, meson, python] ∧
        (chain turned).outcome w = .ok [python, meson, cpp]) ∧
      (FileSystem.mk ((chain turned).after w).tree s.cwd).bytes? (.ofString "/b.py") =
        some [2, 5, 4] := by
  intro file f s c w r steps turned chain
  have hlinks : w.tree.Linkless := Tree.linkless_of_files (by decide)
  have hprobes : s.ProbesQuietly := fun _ _ _ _ => ⟨rfl, rfl⟩
  have hworks : s.Transforms f := by
    intro program args file state tree loc content executable hr
    have hr' : (FileSystem.mk tree ⟨[], 0⟩).resolve .follow ⟨file.bytes⟩ =
      .ok (.entry loc (.file content executable)) := hr
    refine ⟨rfl, ?_⟩
    simp only [s, List.getLast?_concat, hr']
    rfl
  have hwriter {ending : Except Error (List StepReport)} : ¬s.Refused ending := by
    rintro ⟨taken, piece, refusal, hrefuse, -⟩
    cases hrefuse
  obtain ⟨-, -, tree, report, hany⟩ := formatters_in_any_order c s w f hlinks hprobes hworks
  have hturned : turned.Perm steps := List.reverse_perm steps
  obtain ⟨houtcome, htree, -⟩ := (hany steps (.refl steps)).resolve_left hwriter
  obtain ⟨houtcome', htree', -⟩ := (hany turned hturned).resolve_left hwriter
  have hbytes : (FileSystem.mk ((chain turned).after w).tree s.cwd).bytes? (.ofString "/b.py") =
      some [2, 5, 4] := by
    decide +kernel
  exact ⟨hlinks, hprobes, hworks, htree.trans htree'.symm,
    ⟨_, _, _, houtcome, houtcome'⟩, hbytes⟩

end Builtin
end Groom
