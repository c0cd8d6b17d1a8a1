import Groom.Proofs.Shape

/-! Where paths lead in trees of the same layout: to the same places, and to what is alike there. So
questions about the kind of an entry, listings and reported paths are answered alike, whatever the
bytes of the files are. -/
namespace Groom

theorem except_map_eq_map_iff {ε α β : Type} {f : α → β} {x y : Except ε α} :
    x.map f = y.map f ↔ (∃ e, x = .error e ∧ y = .error e) ∨
      ∃ a b, x = .ok a ∧ y = .ok b ∧ f a = f b := by
  cases x <;> cases y <;> simp [Except.map, eq_comm]

namespace Resolution

variable {t t' : Tree}

/-- What the layout of a tree tells of a target. -/
def Target.sketch : Target → Option (Location × Option Kind)
  | .entry loc node => some (loc, some node.kind)
  | .absent dir name => some (dir ++ [name], none)
  | .lost => none

/-- What the layout of a tree tells of a way along segments. -/
def Progress.sketch : Progress → Option (Location × Option Kind) ⊕ (Location × Bytes × List Bytes)
  | .arrived target => .inl target.sketch
  | .link dir path todo => .inr (dir, path, todo)

/-- A way along segments goes alike in trees of the same layout. -/
theorem advance_layout (h : t.SameLayout t') (purpose : Purpose) (here : Location)
    (xs : List Bytes) : (advance t' purpose here xs).map Progress.sketch =
      (advance t purpose here xs).map Progress.sketch := by
  -- every test along the way asks for no more than the layout of the tree
  induction xs generalizing here with
  | nil =>
    obtain ⟨hn, hn'⟩ | ⟨node, node', hn, hn', hk, -⟩ := h.alike here
    · simp only [advance, hn, hn']
    · simp [advance, hn, hn', Except.map, Progress.sketch, Target.sketch, hk]
  | cons x xs ih =>
    obtain ⟨hn, hn'⟩ | ⟨node, node', hn, hn', hk, -⟩ := h.alike here
    · simp only [advance, hn, hn']
    cases node with
    | file | link | device =>
      cases node' <;> first | cases hk; done | simp only [advance, hn, hn']
    | directory es =>
      cases node' with
      | file | link | device => cases hk
      | directory es' =>
        simp only [advance, hn, hn']
        by_cases hdot : x = [] ∨ x = [Bytes.dot]
        · rw [if_pos hdot, if_pos hdot]
          exact ih here
        rw [if_neg hdot, if_neg hdot]
        by_cases hdots : x = [Bytes.dot, Bytes.dot]
        · rw [if_pos hdots, if_pos hdots]
          exact ih here.dropLast
        rw [if_neg hdots, if_neg hdots]
        by_cases hlong : x.length > maxName
        · rw [if_pos hlong, if_pos hlong]
        rw [if_neg hlong, if_neg hlong]
        by_cases hcreate : purpose = .create ∧ xs = [[]]
        · rw [if_pos hcreate, if_pos hcreate]
        rw [if_neg hcreate, if_neg hcreate]
        cases hname : Name.ofBytes? x with
        | none => rfl
        | some name =>
          dsimp only
          obtain ⟨hf, hf'⟩ | ⟨found, found', hf, hf', hk', htarget⟩ := h.alike_entry hn hn' name
          · rw [hf, hf']
          rw [hf, hf']
          cases found with
          | link target =>
            cases found' with
            | link target' =>
              obtain rfl : target' = target := Option.some.inj htarget
              rfl
            | file | directory | device => cases hk'
          | file | directory | device =>
            cases found' <;> first | cases hk'; done | exact ih (here ++ [name])

theorem resolveFrom_layout (h : t.SameLayout t') (purpose : Purpose) (links : Nat)
    (here : Location) (xs : List Bytes) : (resolveFrom t' purpose links here xs).map Target.sketch =
      (resolveFrom t purpose links here xs).map Target.sketch := by
  induction links using Nat.strongRecOn generalizing here xs with
  | ind links ih =>
    rw [resolveFrom_eq, resolveFrom_eq]
    obtain ⟨e, ha', ha⟩ | ⟨progress', progress, ha', ha, hsketch⟩ :=
      except_map_eq_map_iff.mp (advance_layout h purpose here xs) <;> rw [ha', ha]
    cases progress with
    | arrived target =>
      cases progress' with
      | arrived target' => exact congrArg Except.ok (Sum.inl.inj hsketch)
      | link => cases hsketch
    | link dir path todo =>
      cases progress' with
      | arrived => cases hsketch
      | link dir' path' todo' =>
        cases hsketch
        -- the same link is followed in both trees, as long as one may be
        cases links with
        | zero => rfl
        | succ left =>
          dsimp only
          split
          · rfl
          · exact ih left (Nat.lt_succ_self left) _ _

end Resolution

namespace FileSystem

open Resolution

variable {t t' : Tree} {cwd : Working} {p : Path} {n : Name} {loc : Location}

theorem lost_shape (h : t.SameShape t') : cwd.lost t' = cwd.lost t := by
  simp only [Working.lost, h.removals]

theorem here?_shape (h : t.SameShape t') : (mk t' cwd).here? = (mk t cwd).here? := by
  unfold here?
  rw [lost_shape h]

/-- A path leads to the same place in trees of the same layout, or nowhere in both. -/
theorem ofPath_layout (h : t.SameLayout t') (cwd : Working) (purpose : Purpose) (p : Path) :
    (ofPath t' cwd purpose p).map Target.sketch = (ofPath t cwd purpose p).map Target.sketch := by
  have hbelow (todo : List Bytes) :
      (resolveBelow t' purpose (cwd.lost t) cwd.place todo).map Target.sketch =
        (resolveBelow t purpose (cwd.lost t) cwd.place todo).map Target.sketch := by
    cases he : emerge (cwd.lost t) cwd.place todo with
    | none => obtain hnone | hnone := resolveBelow_of_emerge_none he <;> rw [hnone, hnone]
    | some out =>
      rw [resolveBelow_of_emerge he, resolveBelow_of_emerge he]
      exact resolveFrom_layout h purpose maxLinks out.1 out.2
  unfold ofPath
  rw [lost_shape h.toSameShape]
  simp only [bind, Except.bind]
  split
  · rfl
  · split
    · exact resolveFrom_layout h purpose maxLinks [] (steps p)
    · exact hbelow (steps p)

theorem resolve_layout (h : t.SameLayout t') (cwd : Working) (purpose : Purpose) (p : Path) :
    ((mk t' cwd).resolve purpose p).map Target.sketch =
      ((mk t cwd).resolve purpose p).map Target.sketch := by
  simp only [resolve, bind, Except.bind]
  split
  · rfl
  · exact ofPath_layout h cwd purpose p

theorem entry_layout (h : t.SameLayout t') (cwd : Working) (purpose : Purpose) (p : Path) :
    ((mk t' cwd).entry purpose p).map Node.kind = ((mk t cwd).entry purpose p).map Node.kind := by
  unfold entry
  obtain ⟨e, hr', hr⟩ | ⟨target', target, hr', hr, hsketch⟩ :=
    except_map_eq_map_iff.mp (resolve_layout h cwd purpose p) <;> rw [hr', hr]
  cases target <;> cases target' <;> simp_all [Target.sketch, Except.map]

/-- The place to which a path leads, when links are followed. -/
def LeadsTo (fs : FileSystem) (p : Path) (loc : Location) : Prop :=
  ∃ node, fs.resolve .follow p = .ok (.entry loc node)

theorem LeadsTo.unique {fs : FileSystem} {loc' : Location} (h : fs.LeadsTo p loc)
    (h' : fs.LeadsTo p loc') : loc = loc' := by
  obtain ⟨node, hr⟩ := h
  obtain ⟨node', hr'⟩ := h'
  rw [hr] at hr'
  cases hr'
  rfl

theorem LeadsTo.layout (h : t.SameLayout t') (hp : (mk t cwd).LeadsTo p loc) :
    (mk t' cwd).LeadsTo p loc := by
  obtain ⟨node, hr⟩ := hp
  obtain ⟨e, hr', he⟩ | ⟨target', target, hr', hr'', hsketch⟩ :=
    except_map_eq_map_iff.mp (resolve_layout h cwd .follow p)
  · rw [hr] at he
    cases he
  · rw [hr] at hr''
    cases hr''
    cases target' with
    | entry loc' node' =>
      simp only [Target.sketch, Option.some.injEq, Prod.mk.injEq] at hsketch
      exact ⟨node', hsketch.1 ▸ hr'⟩
    | absent | lost => simp [Target.sketch] at hsketch

theorem LeadsTo.shape (h : t.SameShape t') (hl : t.Linkless) (hp : (mk t cwd).LeadsTo p loc) :
    (mk t' cwd).LeadsTo p loc :=
  hp.layout (h.layout hl)

/-- In a tree without links, what is below a path is below the place to which the path leads. -/
theorem LeadsTo.child {fs : FileSystem} (hl : fs.tree.Linkless) (hp : p.bytes ≠ [])
    (h : fs.LeadsTo (p.child n) loc) : ∃ dir, fs.LeadsTo p dir ∧ loc = dir ++ [n] := by
  obtain ⟨node, hr⟩ := h
  obtain ⟨left, dir, es, hdir, hleads, hname⟩ := resolve_child (by decide) hp hr
  obtain habsent | ⟨found, hfind, hentry | ⟨-, hlink⟩⟩ := target_of_resolveFrom_name hdir hname
  · cases habsent
  · cases hentry
    exact ⟨dir, ⟨_, hleads⟩, rfl⟩
  · cases found with
    | link target => exact absurd hfind (hl.find?_ne_link hdir n target)
    | file | directory | device => cases hlink

theorem LeadsTo.below {fs : FileSystem} (hl : fs.tree.Linkless) {root : Path}
    (hroot : root.bytes ≠ []) {place : Location} (h : fs.LeadsTo (root.below place) loc) :
    ∃ dir, fs.LeadsTo root dir ∧ loc = dir ++ place := by
  induction place generalizing root with
  | nil => exact ⟨loc, h, (List.append_nil loc).symm⟩
  | cons n rest ih =>
    obtain ⟨dir, hdir, rfl⟩ := ih (root.child_bytes_ne_nil n) h
    obtain ⟨up, hup, rfl⟩ := hdir.child hl hroot
    exact ⟨up, hup, List.append_assoc ..⟩

/-- So two places below one path are not reached at one place of the tree. -/
theorem LeadsTo.below_inj {fs : FileSystem} (hl : fs.tree.Linkless) {root : Path}
    (hroot : root.bytes ≠ []) {place place' : Location} (h : fs.LeadsTo (root.below place) loc)
    (h' : fs.LeadsTo (root.below place') loc) : place = place' := by
  obtain ⟨dir, hdir, rfl⟩ := h.below hl hroot
  obtain ⟨dir', hdir', heq⟩ := h'.below hl hroot
  obtain rfl := hdir.unique hdir'
  exact List.append_cancel_left heq

theorem isFile_iff {fs : FileSystem} :
    fs.isFile p = true ↔ ∃ loc content, fs.LeadsTo p loc ∧ fs.tree.content? loc = some content := by
  constructor
  · intro h
    unfold isFile at h
    split at h
    · rename_i content executable hs
      obtain ⟨loc, hr⟩ | ⟨-, hn⟩ := entry_eq_ok_iff.mp hs
      · refine ⟨loc, content, ⟨_, hr⟩, ?_⟩
        rw [Tree.content?, node?_of_resolve hr]
        rfl
      · cases hn
    · cases h
  · rintro ⟨loc, content, ⟨node, hr⟩, hc⟩
    rw [Tree.content?, node?_of_resolve hr] at hc
    have hs : fs.status p = .ok node := entry_eq_ok_iff.mpr (.inl ⟨loc, hr⟩)
    cases node with
    | file => simp [isFile, hs]
    | link | directory | device => cases hc

theorem read_of_leadsTo {fs : FileSystem} {content : Bytes} (h : fs.LeadsTo p loc)
    (hc : fs.tree.content? loc = some content) : fs.read p = .ok content := by
  obtain ⟨node, hr⟩ := h
  rw [Tree.content?, node?_of_resolve hr] at hc
  have hs : fs.status p = .ok node := entry_eq_ok_iff.mpr (.inl ⟨loc, hr⟩)
  cases node with
  | file bytes executable =>
    cases hc
    simp [read, hs]
  | link | directory | device => cases hc

theorem isFile_iff_kind {fs : FileSystem} :
    fs.isFile p = true ↔ (fs.status p).map Node.kind = .ok .file := by
  unfold isFile
  rcases fs.status p with e | ⟨_, _⟩ | _ | _ | _ <;> simp [Except.map, Node.kind]

theorem isFile_layout (h : t.SameLayout t') (cwd : Working) (p : Path) :
    (mk t' cwd).isFile p = (mk t cwd).isFile p := by
  have hkind : ((mk t' cwd).status p).map Node.kind = ((mk t cwd).status p).map Node.kind :=
    entry_layout h cwd .follow p
  rw [Bool.eq_iff_iff, isFile_iff_kind, isFile_iff_kind, hkind]

theorem isFile_shape (h : t.SameShape t') (hl : t.Linkless) :
    (mk t' cwd).isFile p = (mk t cwd).isFile p :=
  isFile_layout (h.layout hl) cwd p

/-- Directories of trees of the same layout have the same listing. -/
theorem list_layout (h : t.SameLayout t') (cwd : Working) (p : Path) :
    (mk t' cwd).list p = (mk t cwd).list p := by
  unfold list status entry
  obtain ⟨e, hr', hr⟩ | ⟨target', target, hr', hr, hsketch⟩ :=
    except_map_eq_map_iff.mp (resolve_layout h cwd .follow p)
  · rw [hr', hr]
  rw [hr', hr]
  cases target with
  | entry loc node =>
    cases target' with
    | absent | lost => simp [Target.sketch] at hsketch
    | entry loc' node' =>
      simp only [Target.sketch, Option.some.injEq, Prod.mk.injEq] at hsketch
      obtain ⟨rfl, hkind⟩ := hsketch
      cases node with
      | file | link | device => cases node' <;> first | cases hkind; done | rfl
      | directory es =>
        cases node' with
        | file | link | device => cases hkind
        | directory es' =>
          have hfind (name : Name) :
              (Entries.find? es' name).map Node.kind = (Entries.find? es name).map Node.kind := by
            have hkinds := h.kinds (loc' ++ [name])
            unfold Tree.kind? at hkinds
            rwa [Tree.node?_concat (node?_of_resolve hr'), Tree.node?_concat (node?_of_resolve hr)]
              at hkinds
          exact congrArg Except.ok (Entries.kinds_congr hfind)
  | absent dir name => cases target' <;> first | rfl | simp [Target.sketch] at hsketch
  | lost => cases target' <;> first | rfl | simp [Target.sketch] at hsketch

theorem canonical_layout (h : t.SameLayout t') (cwd : Working) (p : Path) :
    (mk t' cwd).canonical p = (mk t cwd).canonical p := by
  unfold canonical
  rw [here?_shape h.toSameShape]
  obtain ⟨e, hr', hr⟩ | ⟨target', target, hr', hr, hsketch⟩ :=
    except_map_eq_map_iff.mp (ofPath_layout h cwd .follow p)
  · rw [hr', hr]
  · rw [hr', hr]
    cases target <;> cases target' <;> simp_all [Target.sketch]

/-- The path by which a file is reported depends on the layout of the tree alone. -/
theorem absolute_layout (h : t.SameLayout t') (cwd : Working) (p : Path) :
    (mk t' cwd).absolute p = (mk t cwd).absolute p := by
  unfold absolute
  rw [canonical_layout h, here?_shape h.toSameShape]

theorem absolute_shape (h : t.SameShape t') (hl : t.Linkless) :
    (mk t' cwd).absolute p = (mk t cwd).absolute p :=
  absolute_layout (h.layout hl) cwd p

end FileSystem

end Groom
