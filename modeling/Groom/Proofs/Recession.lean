import Mathlib.Data.List.Induction
import Mathlib.Data.Set.Finite.Lattice
import Mathlib.Data.Set.Finite.List
import Groom.Proofs.Layout

/-! Trees in which directories and links can only vanish, while files come and go. What a path leads
to then is where it always led: a directory to which it leads later is the one to which it led
before, and no link appears on the way to it. -/
namespace Groom

namespace Tree

variable {t t' t'' : Tree} {loc : Location}

/-- A later state of a tree. Every directory in it was there before, and so was every link, with the
same path in it; and what was removed before is still on record. -/
structure Recedes (t t' : Tree) : Prop where
  directories : ∀ loc, t'.kind? loc = some .directory → t.kind? loc = some .directory
  links : ∀ loc target, t'.target? loc = some target → t.target? loc = some target
  removals : t.removals <:+ t'.removals

namespace Recedes

theorem refl (t : Tree) : t.Recedes t := ⟨fun _ h => h, fun _ _ h => h, List.suffix_rfl⟩

theorem trans (h : t.Recedes t') (h' : t'.Recedes t'') : t.Recedes t'' where
  directories loc hloc := h.directories loc (h'.directories loc hloc)
  links loc target hloc := h.links loc target (h'.links loc target hloc)
  removals := h.removals.trans h'.removals

/-- Where no link stands, none will. -/
theorem target?_eq_none (h : t.Recedes t') (hloc : t.target? loc = none) :
    t'.target? loc = none := by
  cases htarget : t'.target? loc with
  | none => rfl
  | some target => cases hloc.symm.trans (h.links loc target htarget)

end Recedes

theorem kind?_eq_directory_iff :
    t.kind? loc = some .directory ↔ ∃ es, t.node? loc = some (.directory es) := by
  unfold kind?
  rcases t.node? loc with _ | ⟨_, _⟩ | _ | es | _ <;> simp [Node.kind]

theorem Recedes.directory (h : t.Recedes t') {es' : Entries}
    (hn : t'.node? loc = some (.directory es')) : ∃ es, t.node? loc = some (.directory es) :=
  kind?_eq_directory_iff.mp (h.directories loc (kind?_eq_directory_iff.mpr ⟨es', hn⟩))

theorem target?_eq_none_of_directory (h : t.kind? loc = some .directory) :
    t.target? loc = none := by
  obtain ⟨es, hn⟩ := kind?_eq_directory_iff.mp h
  rw [target?, hn]
  rfl

end Tree

namespace Node

/-- At and below the second entry there are no directories and no links but those at and below the
first. -/
def Recedes (node node' : Node) : Prop :=
  ∀ loc, (∀ es', node'.at? loc = some (.directory es') →
      ∃ es, node.at? loc = some (.directory es)) ∧
    ∀ target, node'.at? loc = some (.link target) → node.at? loc = some (.link target)

theorem Recedes.refl (node : Node) : node.Recedes node :=
  fun _ => ⟨fun es h => ⟨es, h⟩, fun _ h => h⟩

theorem recedes_file (node : Node) (content : Bytes) (executable : Bool) :
    node.Recedes (.file content executable) :=
  fun loc => by cases loc <;> exact ⟨nofun, nofun⟩

/-- Where nothing was, nothing may come but what may come in place of a device. -/
theorem recedes_insert {es : Entries} {name : Name} {new : Node}
    (h : ((Entries.find? es name).getD .device).Recedes new) :
    (directory es).Recedes (.directory (Entries.insert es name new)) := by
  rintro (_ | ⟨n, loc⟩)
  · exact ⟨fun _ _ => ⟨es, rfl⟩, nofun⟩
  rw [at?_insert]
  split
  · rename_i hn
    subst hn
    rw [at?]
    cases hfind : Entries.find? es n with
    | some child =>
      rw [hfind] at h
      exact h loc
    | none =>
      rw [hfind] at h
      have hnone (new' : Node) (h : Node.device.at? loc = some new') : new' = .device := by
        cases loc with
        | nil => exact (Option.some.inj h).symm
        | cons => cases h
      refine ⟨fun es' hes' => ?_, fun target htarget => ?_⟩
      · obtain ⟨ds, hds⟩ := (h loc).1 es' hes'
        cases hnone _ hds
      · cases hnone _ ((h loc).2 target htarget)
  · exact Recedes.refl (.directory es) (n :: loc)

theorem recedes_erase (es : Entries) (name : Name) :
    (directory es).Recedes (.directory (Entries.erase es name)) := by
  rintro (_ | ⟨n, loc⟩)
  · exact ⟨fun _ _ => ⟨es, rfl⟩, nofun⟩
  · by_cases hn : n = name
    · subst hn
      simp [at?, Entries.find?_erase_self]
    · simp only [at?, Entries.find?_erase_of_ne es hn]
      exact Recedes.refl (.directory es) (n :: loc)

/-- A change that leaves a file, or nothing, where it is made. -/
theorem recedes_alter {change : Option Node → Option Node}
    (hchange : ∀ old new, change old = some new → new.kind = .file) (node : Node) (loc : Location) :
    node.Recedes (node.alter change loc) := by
  have file (node : Node) {old : Option Node} {new : Node} (h : change old = some new) :
      node.Recedes new := by
    cases new with
    | file content executable => exact recedes_file node content executable
    | link | directory | device => cases hchange old _ h
  fun_induction alter change node loc with
  | case1 node =>
    cases h : change (some node) with
    | none => exact .refl node
    | some new => exact file node h
  | case2 es name new h => exact recedes_insert (file _ h)
  | case3 es name => exact recedes_erase es name
  | case4 es name rest hrest child hfind ih =>
    refine recedes_insert ?_
    rw [hfind]
    exact ih
  | case5 es => exact .refl _
  | case6 node => exact .refl _

end Node

namespace Tree.Recedes

variable {t t' : Tree}

theorem of_root (h : t.root.Recedes t'.root) (hremovals : t.removals <:+ t'.removals) :
    t.Recedes t' where
  directories loc hloc := by
    obtain ⟨es, hes⟩ := kind?_eq_directory_iff.mp hloc
    exact kind?_eq_directory_iff.mpr ((h loc).1 es hes)
  links loc target hloc := by
    obtain ⟨node, hnode, htarget⟩ := Option.bind_eq_some_iff.mp hloc
    cases node with
    | link =>
      cases htarget
      rw [target?, node?, (h loc).2 _ hnode]
      rfl
    | file | directory | device => cases htarget
  removals := hremovals

theorem alter {change : Option Node → Option Node}
    (hchange : ∀ old new, change old = some new → new.kind = .file) (t : Tree) (loc : Location) :
    t.Recedes (t.alter loc change) := by
  have hroot := Node.recedes_alter hchange t.root loc
  unfold Tree.alter
  split
  · rename_i entries h
    rw [h] at hroot
    exact of_root hroot List.suffix_rfl
  · exact .refl t

/-- Files may be written anywhere. -/
theorem put_file (t : Tree) (loc : Location) (content : Bytes) (executable : Bool) :
    t.Recedes (t.put loc (.file content executable)) :=
  alter (fun _ _ h => Option.some.inj h ▸ rfl) t loc

/-- Anything may be removed. -/
theorem remove (t : Tree) (loc : Location) : t.Recedes (t.remove loc) := by
  have h : t.Recedes (t.alter loc fun _ => none) := alter (fun _ _ h => by cases h) t loc
  exact ⟨h.directories, h.links, List.suffix_cons loc t.removals⟩

end Tree.Recedes

theorem Node.finite_directories : (node : Node) →
    {loc | ∃ es, node.at? loc = some (.directory es)}.Finite
  | .directory es => by
    have below : ∀ e ∈ es, {loc | ∃ ds, e.2.at? loc = some (.directory ds)}.Finite :=
      fun e he => e.2.finite_directories
    have hunion := Set.Finite.biUnion (List.finite_toSet es) fun e he =>
      (below e he).image (e.1 :: ·)
    refine (hunion.insert []).subset ?_
    rintro (_ | ⟨n, loc⟩) ⟨ds, hds⟩
    · exact Set.mem_insert ..
    · obtain ⟨child, hfind, hchild⟩ := Option.bind_eq_some_iff.mp hds
      refine Set.mem_insert_of_mem _ (Set.mem_biUnion (Entries.mem_of_find? hfind) ?_)
      exact ⟨loc, ⟨ds, hchild⟩, rfl⟩
  | .file .. | .link _ | .device => by
    refine Set.finite_empty.subset ?_
    rintro (_ | ⟨n, loc⟩) ⟨ds, hds⟩ <;> cases hds
termination_by node => node
decreasing_by
  have hsize := List.sizeOf_lt_of_mem he
  obtain ⟨n, child⟩ := e
  simp at hsize ⊢
  omega

/-- A tree has finitely many directories. -/
theorem Tree.finite_directories (t : Tree) : {loc | t.kind? loc = some .directory}.Finite := by
  simpa only [kind?_eq_directory_iff, node?] using t.root.finite_directories

namespace Resolution

variable {t t' : Tree} {here loc : Location} {xs : List Bytes}

/-- A way along segments that ends at a directory, or at a link that is to be followed. -/
def Progress.Firm : Progress → Prop
  | .arrived (.entry _ node) => node.kind = .directory
  | .arrived _ => False
  | .link .. => True

/-- Such a way starts at a directory. -/
theorem directory_of_firm {progress : Progress} (h : advance t .follow here xs = .ok progress)
    (hfirm : progress.Firm) : ∃ es, t.node? here = some (.directory es) := by
  cases hn : t.node? here with
  | none => cases xs <;> simp [advance, hn] at h
  | some node =>
    cases node with
    | directory es => exact ⟨es, rfl⟩
    | file | link | device =>
      cases xs with
      | nil =>
        simp only [advance, hn] at h
        cases h
        cases hfirm
      | cons => simp [advance, hn] at h

/-- A way to a directory, or to a link, is the same before. -/
theorem advance_recedes (h : t.Recedes t') {progress : Progress}
    (ha : advance t' .follow here xs = .ok progress) (hfirm : progress.Firm) :
    ∃ before, advance t .follow here xs = .ok before ∧ before.sketch = progress.sketch := by
  induction xs generalizing here with
  | nil =>
    obtain ⟨es', hn'⟩ := directory_of_firm ha hfirm
    obtain ⟨es, hn⟩ := h.directory hn'
    simp only [advance, hn'] at ha
    cases ha
    refine ⟨.arrived (.entry here (.directory es)), ?_, rfl⟩
    simp only [advance, hn]
  | cons x xs ih =>
    obtain ⟨es', hn'⟩ := directory_of_firm ha hfirm
    obtain ⟨es, hn⟩ := h.directory hn'
    simp only [advance, hn', hn, reduceCtorEq, false_and, and_false, if_false] at ha ⊢
    by_cases hdot : x = [] ∨ x = [Bytes.dot]
    · rw [if_pos hdot] at ha ⊢
      exact ih ha
    rw [if_neg hdot] at ha ⊢
    by_cases hdots : x = [Bytes.dot, Bytes.dot]
    · rw [if_pos hdots] at ha ⊢
      exact ih ha
    rw [if_neg hdots] at ha ⊢
    by_cases hlong : x.length > maxName
    · rw [if_pos hlong] at ha
      cases ha
    rw [if_neg hlong] at ha ⊢
    cases hname : Name.ofBytes? x with
    | none =>
      rw [hname] at ha
      cases ha
    | some name =>
      rw [hname] at ha
      dsimp only at ha ⊢
      -- what the name stands for later, if that matters, it stood for before
      cases hf' : Entries.find? es' name with
      | none =>
        rw [hf'] at ha
        dsimp only at ha
        split at ha
        · cases ha
          cases hfirm
        · cases ha
      | some found' =>
        have hthere : t'.node? (here ++ [name]) = some found' := by rw [Tree.node?_concat hn', hf']
        rw [hf'] at ha
        cases found' with
        | link target =>
          have hlink : t.target? (here ++ [name]) = some target :=
            h.links _ _ (by rw [Tree.target?, hthere]; rfl)
          rw [Tree.target?, Tree.node?_concat hn] at hlink
          obtain ⟨found, hf, htarget⟩ := Option.bind_eq_some_iff.mp hlink
          cases found with
          | link =>
            cases htarget
            rw [hf]
            exact ⟨progress, ha, rfl⟩
          | file | directory | device => cases htarget
        | file | directory | device =>
          obtain ⟨ds', hd'⟩ := directory_of_firm ha hfirm
          obtain ⟨ds, hd⟩ := h.directory hd'
          rw [Tree.node?_concat hn] at hd
          rw [hd]
          exact ih ha

theorem resolveFrom_recedes (h : t.Recedes t') {links : Nat} {es' : Entries}
    (hr : resolveFrom t' .follow links here xs = .ok (.entry loc (.directory es'))) :
    ∃ es, resolveFrom t .follow links here xs = .ok (.entry loc (.directory es)) := by
  induction links using Nat.strongRecOn generalizing here xs with
  | ind links ih =>
    rw [resolveFrom_eq] at hr ⊢
    cases ha : advance t' .follow here xs with
    | error e =>
      rw [ha] at hr
      cases hr
    | ok progress =>
      rw [ha] at hr
      cases progress with
      | arrived target =>
        cases hr
        obtain ⟨before, hbefore, hsketch⟩ := advance_recedes h ha rfl
        rw [hbefore]
        rcases before with (⟨loc', _ | _ | es | _⟩ | _ | _) | _ <;> cases hsketch
        exact ⟨es, rfl⟩
      | link dir path rest =>
        obtain ⟨before, hbefore, hsketch⟩ := advance_recedes h ha trivial
        rw [hbefore]
        cases before with
        | arrived => cases hsketch
        | link =>
          cases hsketch
          cases links with
          | zero => cases hr
          | succ left =>
            dsimp only at hr ⊢
            split at hr
            · cases hr
            · rename_i hpath
              rw [if_neg hpath]
              exact ih left (Nat.lt_succ_self left) hr

theorem resolveFrom_dot {links : Nat} {s : Bytes} {target : Target} (hs : s = [] ∨ s = [Bytes.dot])
    (hr : resolveFrom t .follow links here (s :: xs) = .ok target) :
    resolveFrom t .follow links here xs = .ok target := by
  cases hn : t.node? here with
  | none => simp [resolveFrom_eq, advance, hn] at hr
  | some node =>
    obtain ⟨es, rfl⟩ := directory_of_resolveFrom_cons hn hr
    rw [resolveFrom_eq, advance, hn] at hr
    rw [resolveFrom_eq]
    simpa only [if_pos hs] using hr

theorem resolveFrom_dots {links : Nat} {target : Target}
    (hr : resolveFrom t .follow links here ([Bytes.dot, Bytes.dot] :: xs) = .ok target) :
    resolveFrom t .follow links here.dropLast xs = .ok target := by
  cases hn : t.node? here with
  | none => simp [resolveFrom_eq, advance, hn] at hr
  | some node =>
    obtain ⟨es, rfl⟩ := directory_of_resolveFrom_cons hn hr
    rw [resolveFrom_eq, advance, hn] at hr
    rw [resolveFrom_eq]
    simpa [Bytes.dot] using hr

/-- The way out of more directories that are gone is a later part of the same way. -/
theorem resolveFrom_emerge {lost lost' links : Nat} (hle : lost ≤ lost') {m m' : Location}
    {todo todo' : List Bytes} {target : Target} (he : emerge lost here xs = some (m, todo))
    (he' : emerge lost' here xs = some (m', todo'))
    (hr : resolveFrom t .follow links m todo = .ok target) :
    resolveFrom t .follow links m' todo' = .ok target := by
  fun_induction emerge lost' here xs generalizing lost m todo with
  | case1 here xs =>
    obtain rfl := Nat.le_zero.mp hle
    rw [emerge] at he
    cases he
    cases he'
    exact hr
  | case2 | case5 => cases he'
  | case3 lost' here s rest hs ih =>
    cases lost with
    | zero =>
      rw [emerge] at he
      cases he
      exact ih hle (by rw [emerge]) he' (resolveFrom_dot hs hr)
    | succ lost =>
      rw [emerge, if_pos hs] at he
      exact ih hle he he' hr
  | case4 lost' here rest hs ih =>
    cases lost with
    | zero =>
      rw [emerge] at he
      cases he
      exact ih (Nat.zero_le _) (by rw [emerge]) he' (resolveFrom_dots hr)
    | succ lost =>
      rw [emerge, if_neg hs, if_pos rfl] at he
      exact ih (Nat.le_of_succ_le_succ hle) he he' hr

end Resolution

theorem foldl_max_mono {l : List Nat} {a b : Nat} (h : a ≤ b) : l.foldl max a ≤ l.foldl max b := by
  induction l generalizing a b with
  | nil => exact h
  | cons c rest ih => exact ih (by omega)

/-- The more was removed, the more directories may be gone on the way up. -/
theorem Working.lost_mono {t t' : Tree} (h : t.removals <:+ t'.removals) (w : Working) :
    w.lost t ≤ w.lost t' := by
  obtain ⟨extra, hextra⟩ := h
  by_cases hsince : t.removals.length ≤ w.since
  · have hnone : w.lost t = 0 := by simp [lost, Nat.sub_eq_zero_of_le hsince]
    omega
  · have hlength : t'.removals.length - w.since =
        extra.length + (t.removals.length - w.since) := by
      rw [← hextra, List.length_append]
      omega
    unfold lost
    dsimp only
    rw [hlength, ← hextra, List.take_length_add_append, List.filter_append, List.map_append,
      List.foldl_append]
    exact foldl_max_mono (Nat.zero_le _)

namespace FileSystem

open Resolution

variable {t t' : Tree} {cwd : Working} {p root : Path} {loc loc' base place : Location}

/-- A directory to which a path leads later is the one to which it led before, if it led anywhere.
-/
theorem resolve_recedes (h : t.Recedes t') {node : Node} {es' : Entries}
    (hr : (mk t cwd).resolve .follow p = .ok (.entry loc node))
    (hr' : (mk t' cwd).resolve .follow p = .ok (.entry loc' (.directory es'))) : loc' = loc := by
  obtain ⟨-, hr⟩ := resolve_eq_ok_iff.mp hr
  obtain ⟨-, hr'⟩ := resolve_eq_ok_iff.mp hr'
  have hstart : ((mk t cwd).start p).1 ≤ ((mk t' cwd).start p).1 ∧
      ((mk t cwd).start p).2 = ((mk t' cwd).start p).2 := by
    unfold start
    split
    · exact ⟨Nat.le_refl 0, rfl⟩
    · exact ⟨cwd.lost_mono h.removals, rfl⟩
  rw [hstart.2] at hr
  cases he : emerge ((mk t cwd).start p).1 ((mk t' cwd).start p).2 (steps p) with
  | none =>
    obtain hnone | hnone := resolveBelow_of_emerge_none he <;> cases (hnone _ _).symm.trans hr
  | some out =>
    cases he' : emerge ((mk t' cwd).start p).1 ((mk t' cwd).start p).2 (steps p) with
    | none =>
      obtain hnone | hnone := resolveBelow_of_emerge_none he' <;> cases (hnone _ _).symm.trans hr'
    | some out' =>
      rw [resolveBelow_of_emerge he] at hr
      rw [resolveBelow_of_emerge he'] at hr'
      obtain ⟨es, hback⟩ := resolveFrom_recedes h hr'
      have hsame := resolveFrom_emerge hstart.1 he he' hr
      cases hsame.symm.trans hback
      rfl

/-- A name in a directory leads to the entry that has it there, unless that is a link. -/
theorem resolve_child_of_plain {fs : FileSystem} {n : Name} {target : Target} (hp : p.bytes ≠ [])
    (hhere : ∀ here es, fs.resolve .follow p = .ok (.entry here (.directory es)) → here = loc)
    (hplain : fs.tree.target? (loc ++ [n]) = none)
    (h : fs.resolve .follow (p.child n) = .ok target) :
    target = .absent loc n ∨ ∃ node, target = .entry (loc ++ [n]) node := by
  obtain ⟨left, dir, es, hdir, hp', hname⟩ := resolve_child (by decide) hp h
  obtain rfl := hhere dir es hp'
  obtain habsent | ⟨found, hfind, hentry | ⟨-, hlink⟩⟩ := target_of_resolveFrom_name hdir hname
  · exact .inl habsent
  · exact .inr ⟨found, hentry⟩
  · rw [Tree.target?, Tree.node?_concat hdir, hfind] at hplain
    cases found with
    | link => cases hplain
    | file | directory | device => cases hlink

/-- A directory below a root stands below the place of the root, if no link stands on the way. -/
theorem resolve_below_of_plain {fs : FileSystem} {es : Entries} (hroot : root.bytes ≠ [])
    (hbase : ∀ loc es, fs.resolve .follow root = .ok (.entry loc (.directory es)) → loc = base)
    (hplain : ∀ front, front ≠ [] → front <+: place → fs.tree.target? (base ++ front) = none)
    (h : fs.resolve .follow (root.below place) = .ok (.entry loc (.directory es))) :
    loc = base ++ place := by
  induction place using List.reverseRecOn generalizing loc es with
  | nil => rw [hbase loc es h, List.append_nil]
  | append_singleton front n ih =>
    have hfront (here : Location) (es : Entries)
        (hhere : fs.resolve .follow (root.below front) = .ok (.entry here (.directory es))) :
        here = base ++ front :=
      ih (fun before hne h => hplain before hne (h.trans ⟨[n], rfl⟩)) hhere
    rw [Path.below_concat] at h
    have hend : fs.tree.target? (base ++ front ++ [n]) = none := by
      rw [List.append_assoc]
      exact hplain (front ++ [n]) (by simp) List.prefix_rfl
    obtain habsent | ⟨node, hentry⟩ :=
      resolve_child_of_plain (Path.below_bytes_ne_nil hroot front) hfront hend h
    · cases habsent
    · cases hentry
      exact List.append_assoc ..

end FileSystem

end Groom
