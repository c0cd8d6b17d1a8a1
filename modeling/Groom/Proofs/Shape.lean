import Groom.Proofs.Resolution

/-! Trees of the same shape: what stands where is the same, and only the bytes of files may differ.
Where links hold the same paths too, the trees are of one layout. A tree without links has the
layout of every tree of its shape. -/
namespace Groom

namespace Node

def content? : Node → Option Bytes
  | .file content _ => some content
  | .link _ | .directory _ | .device => none

/-- The path that a link holds. -/
def target? : Node → Option Bytes
  | .link target => some target
  | .file .. | .directory _ | .device => none

theorem target?_eq_none {node : Node} (h : node.kind ≠ .link) : node.target? = none := by
  cases node with
  | link target => exact absurd rfl h
  | file | directory | device => rfl

theorem alter_cons_of_find? {es : Entries} {name : Name} {child : Node}
    (hfind : Entries.find? es name = some child) (rest : Location) (new : Node) :
    (directory es).alter (fun _ => some new) (name :: rest) =
      directory (Entries.insert es name (child.alter (fun _ => some new) rest)) := by
  cases rest <;> simp [alter, hfind]

theorem at?_insert (es : Entries) (name : Name) (new : Node) (n : Name) (rest : Location) :
    (directory (Entries.insert es name new)).at? (n :: rest) =
      if n = name then new.at? rest else (directory es).at? (n :: rest) := by
  by_cases hn : n = name
  · subst hn
    simp [at?, Entries.find?_insert_self]
  · simp [at?, Entries.find?_insert_of_ne es new hn, hn]

variable {node : Node} {loc : Location} {content new : Bytes} {x x' : Bool}

/-- When a file gets other bytes, nothing changes that can be read off nodes and is the same for all
directories, except perhaps at the place of the file. -/
theorem map_alter_file {α : Type} {f : Node → α} (h : node.at? loc = some (.file content x))
    (hdir : ∀ es es', f (.directory es) = f (.directory es')) (loc' : Location)
    (hfile : loc' = loc → f (.file new x') = f (.file content x)) :
    ((node.alter (fun _ => some (.file new x')) loc).at? loc').map f = (node.at? loc').map f := by
  induction loc generalizing node loc' with
  | nil =>
    obtain rfl := Option.some.inj h
    cases loc' with
    | nil => exact congrArg some (hfile rfl)
    | cons n r => rfl
  | cons name rest ih =>
    cases node with
    | file | link | device => cases h
    | directory es =>
      obtain ⟨child, hfind, hchild⟩ := Option.bind_eq_some_iff.mp h
      rw [alter_cons_of_find? hfind]
      cases loc' with
      | nil => exact congrArg some (hdir _ _)
      | cons n r =>
        rw [at?_insert]
        split
        · rename_i hn
          subst hn
          rw [ih hchild r fun heq => hfile (congrArg (n :: ·) heq), at?, hfind]
          rfl
        · rfl

theorem at?_alter_self {old new : Node} (h : node.at? loc = some old) :
    (node.alter (fun _ => some new) loc).at? loc = some new := by
  induction loc generalizing node with
  | nil => rfl
  | cons name rest ih =>
    cases node with
    | file | link | device => cases h
    | directory es =>
      obtain ⟨child, hfind, hchild⟩ := Option.bind_eq_some_iff.mp h
      rw [alter_cons_of_find? hfind, at?_insert, if_pos rfl]
      exact ih hchild

end Node

namespace Tree

variable {t t' t'' : Tree} {loc : Location}

def kind? (t : Tree) (loc : Location) : Option Kind := (t.node? loc).map Node.kind

def content? (t : Tree) (loc : Location) : Option Bytes := (t.node? loc).bind Node.content?

/-- A tree without symbolic links. -/
def Linkless (t : Tree) : Prop := ∀ loc, t.kind? loc ≠ some .link

/-- Two trees of which the second has what the first has at every place, up to the bytes of files,
and from which no more was removed. -/
structure SameShape (t t' : Tree) : Prop where
  kinds : ∀ loc, t'.kind? loc = t.kind? loc
  removals : t'.removals = t.removals

namespace SameShape

theorem refl (t : Tree) : t.SameShape t := ⟨fun _ => rfl, rfl⟩

theorem symm (h : t.SameShape t') : t'.SameShape t :=
  ⟨fun loc => (h.kinds loc).symm, h.removals.symm⟩

theorem trans (h : t.SameShape t') (h' : t'.SameShape t'') : t.SameShape t'' :=
  ⟨fun loc => (h'.kinds loc).trans (h.kinds loc), h'.removals.trans h.removals⟩

theorem linkless (h : t.SameShape t') (hl : t.Linkless) : t'.Linkless :=
  fun loc => h.kinds loc ▸ hl loc

end SameShape

/-- The path that the link at a place holds. -/
def target? (t : Tree) (loc : Location) : Option Bytes := (t.node? loc).bind Node.target?

/-- Two trees of the same shape whose links hold the same paths. -/
structure SameLayout (t t' : Tree) : Prop extends t.SameShape t' where
  targets : ∀ loc, t'.target? loc = t.target? loc

namespace SameLayout

theorem refl (t : Tree) : t.SameLayout t := ⟨.refl t, fun _ => rfl⟩

theorem symm (h : t.SameLayout t') : t'.SameLayout t :=
  ⟨h.toSameShape.symm, fun loc => (h.targets loc).symm⟩

theorem trans (h : t.SameLayout t') (h' : t'.SameLayout t'') : t.SameLayout t'' :=
  ⟨h.toSameShape.trans h'.toSameShape, fun loc => (h'.targets loc).trans (h.targets loc)⟩

/-- What stands at a place is alike in both trees. -/
theorem alike (h : t.SameLayout t') (loc : Location) :
    (t.node? loc = none ∧ t'.node? loc = none) ∨
      ∃ node node', t.node? loc = some node ∧ t'.node? loc = some node' ∧
        node'.kind = node.kind ∧ node'.target? = node.target? := by
  have hkind := h.kinds loc
  have htarget := h.targets loc
  unfold kind? at hkind
  unfold target? at htarget
  cases hn : t.node? loc with
  | none =>
    rw [hn] at hkind
    exact .inl ⟨rfl, Option.map_eq_none_iff.mp hkind⟩
  | some node =>
    rw [hn] at hkind htarget
    obtain ⟨node', hn', hk⟩ := Option.map_eq_some_iff.mp hkind
    rw [hn'] at htarget
    exact .inr ⟨node, node', rfl, hn', hk, htarget⟩

/-- So is what is found by name in a directory. -/
theorem alike_entry (h : t.SameLayout t') {es es' : Entries}
    (hn : t.node? loc = some (.directory es)) (hn' : t'.node? loc = some (.directory es'))
    (name : Name) :
    (Entries.find? es name = none ∧ Entries.find? es' name = none) ∨
      ∃ node node', Entries.find? es name = some node ∧ Entries.find? es' name = some node' ∧
        node'.kind = node.kind ∧ node'.target? = node.target? := by
  have halike := h.alike (loc ++ [name])
  rw [node?_concat hn, node?_concat hn'] at halike
  exact halike

end SameLayout

/-- A tree without links has the layout of every tree of its shape. -/
theorem SameShape.layout (h : t.SameShape t') (hl : t.Linkless) : t.SameLayout t' := by
  have none_of (u : Tree) (hu : u.Linkless) (loc : Location) : u.target? loc = none := by
    refine Option.bind_eq_none_iff.mpr fun node hn => Node.target?_eq_none fun hk => hu loc ?_
    rw [kind?, hn, Option.map_some, hk]
  refine ⟨h, fun loc => ?_⟩
  rw [none_of t hl, none_of t' (h.linkless hl)]

theorem Linkless.find?_ne_link (hl : t.Linkless) {es : Entries}
    (hn : t.node? loc = some (.directory es)) (name : Name) (target : Bytes) :
    Entries.find? es name ≠ some (.link target) := by
  intro hf
  refine hl (loc ++ [name]) ?_
  rw [kind?, node?_concat hn, hf]
  rfl

theorem linkless_of_files (h : ∀ e ∈ t.entries, e.2.kind = .file) : t.Linkless := by
  intro loc hlink
  obtain ⟨node, hnode, hkind⟩ := Option.map_eq_some_iff.mp hlink
  cases loc with
  | nil =>
    cases hnode
    cases hkind
  | cons n rest =>
    obtain ⟨child, hfind, hat⟩ := Option.bind_eq_some_iff.mp hnode
    have hchild : child.kind = .file := h _ (Entries.mem_of_find? hfind)
    cases child with
    | file content executable =>
      cases rest with
      | nil =>
        cases hat
        cases hkind
      | cons m rest => cases hat
    | link | directory | device => cases hchild

theorem node?_put_file {content new : Bytes} {x x' : Bool}
    (h : t.node? loc = some (.file content x)) (loc' : Location) :
    (t.put loc (.file new x')).node? loc' =
      (t.root.alter (fun _ => some (.file new x')) loc).at? loc' := by
  cases loc with
  | nil => cases h
  | cons name rest =>
    obtain ⟨child, hfind, -⟩ := Option.bind_eq_some_iff.mp h
    unfold put alter
    rw [root, Node.alter_cons_of_find? hfind]
    rfl

variable {content new : Bytes} {x x' : Bool}

theorem map_put_file {α : Type} {f : Node → α} (h : t.node? loc = some (.file content x))
    (hdir : ∀ es es', f (.directory es) = f (.directory es')) (loc' : Location)
    (hfile : loc' = loc → f (.file new x') = f (.file content x)) :
    ((t.put loc (.file new x')).node? loc').map f = (t.node? loc').map f := by
  rw [node?_put_file h]
  exact Node.map_alter_file h hdir loc' hfile

theorem bind_put_file {α : Type} {f : Node → Option α} (h : t.node? loc = some (.file content x))
    (hdir : ∀ es es', f (.directory es) = f (.directory es')) (loc' : Location)
    (hfile : loc' = loc → f (.file new x') = f (.file content x)) :
    ((t.put loc (.file new x')).node? loc').bind f = (t.node? loc').bind f := by
  have hmap := congrArg (Option.bind · id) (map_put_file h hdir loc' hfile)
  simpa only [Option.bind_map, Function.id_comp] using hmap

/-- A tree keeps its shape when a file in it gets other bytes. -/
theorem SameShape.put_file (h : t.node? loc = some (.file content x)) :
    t.SameShape (t.put loc (.file new x')) := by
  refine ⟨fun loc' => map_put_file h (fun _ _ => rfl) loc' fun _ => rfl, ?_⟩
  unfold put alter
  split <;> rfl

/-- And its links hold what they held. -/
theorem SameLayout.put_file (h : t.node? loc = some (.file content x)) :
    t.SameLayout (t.put loc (.file new x')) :=
  ⟨.put_file h, fun loc' => bind_put_file h (fun _ _ => rfl) loc' fun _ => rfl⟩

theorem content?_put_file (h : t.node? loc = some (.file content x)) {loc' : Location}
    (hne : loc' ≠ loc) : (t.put loc (.file new x')).content? loc' = t.content? loc' :=
  bind_put_file h (fun _ _ => rfl) loc' (absurd · hne)

theorem content?_put_self (h : t.node? loc = some (.file content x)) :
    (t.put loc (.file new x')).content? loc = some new := by
  rw [content?, node?_put_file h, Node.at?_alter_self h]
  rfl

end Tree

end Groom
