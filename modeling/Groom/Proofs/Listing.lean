import Groom.FileSystem

/-! The listing of a directory: it holds the entries that can be found by name, each once, and its
names stand in strict order of their bytes. So a listing is determined by what can be found. -/
namespace Groom

theorem Bytes.lt_of_not_lt {a b : Bytes} (h : ¬a < b) (hne : a ≠ b) : b < a := by
  have hle : b ≤ a := List.not_lt.mp h
  by_cases hlt : b < a
  · exact hlt
  · exact absurd (List.le_antisymm (List.not_lt.mp hlt) hle) hne

namespace Name

theorem eq_of_bytes {m n : Name} (h : m.bytes = n.bytes) : m = n := by
  cases m
  cases n
  cases h
  rfl

def Before (m n : Name) : Prop := m.bytes < n.bytes

theorem Before.irrefl (n : Name) : ¬n.Before n := List.lt_irrefl n.bytes

theorem Before.trans {l m n : Name} (h : l.Before m) (h' : m.Before n) : l.Before n :=
  List.lt_trans h h'

theorem Before.ne {m n : Name} (h : m.Before n) : m ≠ n := by
  rintro rfl
  exact Before.irrefl m h

end Name

namespace Entries

theorem find?_insertByName (es : Entries) (name other : Name) (node : Node) :
    find? (insertByName name node es) other =
      if name = other then some node else find? es other := by
  induction es with
  | nil => simp [insertByName, find?]
  | cons e rest ih =>
    obtain ⟨n, old⟩ := e
    by_cases hn : n = name
    · subst hn
      by_cases ho : n = other <;> simp [insertByName, find?, ho]
    · by_cases hlt : name.bytes < n.bytes
      · simp [insertByName, find?, hn, hlt]
      · by_cases ho : n = other
        · subst ho
          simp [insertByName, find?, hn, hlt, Ne.symm hn]
        · simp [insertByName, find?, hn, hlt, ho, ih]

theorem mem_of_find? {es : Entries} {name : Name} {node : Node} (h : find? es name = some node) :
    (name, node) ∈ es := by
  induction es with
  | nil => cases h
  | cons e rest ih =>
    obtain ⟨n, old⟩ := e
    by_cases hn : n = name
    · subst hn
      obtain rfl : old = node := by simpa [find?] using h
      exact List.mem_cons_self
    · exact List.mem_cons_of_mem _ (ih (by simpa [find?, hn] using h))

theorem find?_sorted (es : Entries) (name : Name) : find? (sorted es) name = find? es name := by
  induction es with
  | nil => rfl
  | cons e rest ih =>
    obtain ⟨n, node⟩ := e
    have hcons : sorted ((n, node) :: rest) = insertByName n node (sorted rest) := rfl
    rw [hcons, find?_insertByName, ih]
    rfl

theorem mem_insertByName {name : Name} {node : Node} {es : Entries} {e : Name × Node}
    (h : e ∈ insertByName name node es) : e = (name, node) ∨ e ∈ es := by
  induction es with
  | nil => exact .inl (List.mem_singleton.mp h)
  | cons f rest ih =>
    obtain ⟨n, old⟩ := f
    simp only [insertByName] at h
    split at h
    · exact (List.mem_cons.mp h).imp id (List.mem_cons_of_mem _)
    · split at h
      · exact List.mem_cons.mp h
      · rcases List.mem_cons.mp h with h | h
        · exact .inr (h ▸ List.mem_cons_self)
        · exact (ih h).imp id (List.mem_cons_of_mem _)

theorem pairwise_insertByName (name : Name) (node : Node) {es : Entries}
    (h : es.Pairwise fun a b => a.1.Before b.1) :
    (insertByName name node es).Pairwise fun a b => a.1.Before b.1 := by
  induction es with
  | nil => exact List.pairwise_singleton _ _
  | cons f rest ih =>
    obtain ⟨n, old⟩ := f
    obtain ⟨hn, hrest⟩ := List.pairwise_cons.mp h
    simp only [insertByName]
    split
    · rename_i heq
      subst heq
      exact List.pairwise_cons.mpr ⟨hn, hrest⟩
    · rename_i hne
      split
      · rename_i hlt
        refine List.pairwise_cons.mpr ⟨?_, h⟩
        intro e he
        rcases List.mem_cons.mp he with rfl | he
        · exact hlt
        · exact Name.Before.trans hlt (hn e he)
      · rename_i hnlt
        refine List.pairwise_cons.mpr ⟨?_, ih hrest⟩
        intro e he
        rcases mem_insertByName he with rfl | he
        · exact Bytes.lt_of_not_lt hnlt fun hb => hne (Name.eq_of_bytes hb.symm)
        · exact hn e he

theorem pairwise_sorted (es : Entries) : (sorted es).Pairwise fun a b => a.1.Before b.1 := by
  induction es with
  | nil => exact .nil
  | cons e rest ih => exact pairwise_insertByName e.1 e.2 ih

theorem mem_iff_find? {es : Entries} (h : es.Pairwise fun a b => a.1.Before b.1) {name : Name}
    {node : Node} : (name, node) ∈ es ↔ find? es name = some node := by
  induction es with
  | nil => simp
  | cons e rest ih =>
    obtain ⟨n, old⟩ := e
    obtain ⟨hn, hrest⟩ := List.pairwise_cons.mp h
    by_cases heq : n = name
    · subst heq
      have hnot : (n, node) ∉ rest := fun hmem => Name.Before.irrefl n (hn _ hmem)
      simp [find?, hnot, eq_comm]
    · simp [find?, heq, Ne.symm heq, ih hrest]

theorem mem_sorted {es : Entries} {name : Name} {node : Node} :
    (name, node) ∈ sorted es ↔ find? es name = some node := by
  rw [mem_iff_find? (pairwise_sorted es), find?_sorted]

/-- What a listing tells of a directory: the names, and what they stand for. -/
def kinds (es : Entries) : List (Name × Kind) := (sorted es).map fun e => (e.1, e.2.kind)

theorem mem_kinds {es : Entries} {name : Name} {kind : Kind} :
    (name, kind) ∈ kinds es ↔ ∃ node, find? es name = some node ∧ node.kind = kind := by
  simp only [kinds, List.mem_map, Prod.exists, Prod.mk.injEq]
  constructor
  · rintro ⟨n, node, hmem, rfl, rfl⟩
    exact ⟨node, mem_sorted.mp hmem, rfl⟩
  · rintro ⟨node, hfind, rfl⟩
    exact ⟨name, node, mem_sorted.mpr hfind, rfl, rfl⟩

theorem pairwise_kinds (es : Entries) : (kinds es).Pairwise fun a b => a.1.Before b.1 :=
  List.pairwise_map.mpr (pairwise_sorted es)

/-- A listing is determined by what can be found. -/
theorem kinds_congr {es es' : Entries}
    (h : ∀ name, (find? es' name).map Node.kind = (find? es name).map Node.kind) :
    kinds es' = kinds es := by
  have nodup (es : Entries) : (kinds es).Nodup :=
    (pairwise_kinds es).imp fun hb heq => hb.ne (congrArg Prod.fst heq)
  have hmem (e : Name × Kind) : e ∈ kinds es' ↔ e ∈ kinds es := by
    obtain ⟨name, kind⟩ := e
    rw [mem_kinds, mem_kinds, ← Option.map_eq_some_iff, ← Option.map_eq_some_iff, h]
  -- two lists with the same members are the same if both stand in strict order
  refine ((List.perm_ext_iff_of_nodup (nodup es') (nodup es)).mpr hmem).eq_of_pairwise ?_
    (pairwise_kinds es') (pairwise_kinds es)
  intro a b _ _ hab hba
  exact absurd (hab.trans hba) (Name.Before.irrefl a.1)

end Entries

namespace FileSystem

theorem list_eq_ok_iff {fs : FileSystem} {p : Path} {listing : List (Name × Kind)} :
    fs.list p = .ok listing ↔
      ∃ es, fs.status p = .ok (.directory es) ∧ Entries.kinds es = listing := by
  unfold list
  rcases fs.status p with cause | ⟨_, _⟩ | _ | es | _ <;> simp [Entries.kinds]

theorem pairwise_list {fs : FileSystem} {p : Path} {listing : List (Name × Kind)}
    (h : fs.list p = .ok listing) : listing.Pairwise fun a b => a.1.Before b.1 := by
  obtain ⟨es, -, rfl⟩ := list_eq_ok_iff.mp h
  exact Entries.pairwise_kinds es

end FileSystem

end Groom
