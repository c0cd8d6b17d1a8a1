import Groom.Proofs.Aliases

/-! Absolute paths. A path that leads to an entry is reported as the one path to that entry that has
neither dots nor links in it. Any other path is written out from the root, without a look at the
tree, so dots that lead up stay in it. -/
namespace Groom

namespace Path

theorem Component.ofSegment_ne_root (s : Bytes) : Component.ofSegment s ≠ .root := by
  unfold ofSegment
  split
  · exact nofun
  · split <;> exact nofun

/-- A path that is not absolute has steps, unless it is empty; an absolute one has them after the
root. -/
theorem exists_stretches {p : Path} (hp : p.bytes ≠ []) : ∃ stretches : List Bytes,
    (∀ s ∈ stretches, s ≠ [] ∧ Bytes.slash ∉ s) ∧
    p.components = (if p.isAbsolute then [.root] else []) ++ stretches.map .ofSegment := by
  obtain ⟨first, rest, hsplit⟩ :=
    List.exists_cons_of_ne_nil (Bytes.splitOn_ne_nil Bytes.slash p.bytes)
  have hpure : ∀ s ∈ first :: rest, Bytes.slash ∉ s := fun s hs =>
    Bytes.notMem_of_mem_splitOn (hsplit ▸ hs)
  have hkept : ∀ s ∈ rest.filter (!blank ·), s ≠ [] ∧ Bytes.slash ∉ s := by
    intro s hs
    obtain ⟨hmem, hblank⟩ := List.mem_filter.mp hs
    exact ⟨fun hnil => by simp [blank, hnil] at hblank, hpure s (List.mem_cons_of_mem _ hmem)⟩
  have hcomponents := components_of_stretches hsplit
  by_cases hfirst : first = []
  · have hrest : rest ≠ [] := by
      rintro rfl
      have hjoin := Bytes.joinWith_splitOn Bytes.slash p.bytes
      rw [hsplit, hfirst] at hjoin
      exact hp hjoin.symm
    have habsolute : p.isAbsolute = true := (isAbsolute_iff hsplit).mpr ⟨hfirst, hrest⟩
    refine ⟨_, hkept, ?_⟩
    rw [hcomponents, habsolute]
    simp [opening, onward, hfirst, hrest]
  · have hrelative : p.isAbsolute = false := by
      rw [Bool.eq_false_iff]
      exact fun h => hfirst ((isAbsolute_iff hsplit).mp h).1
    refine ⟨first :: rest.filter (!blank ·), ?_, ?_⟩
    · exact List.forall_mem_cons.mpr ⟨⟨hfirst, hpure first List.mem_cons_self⟩, hkept⟩
    · rw [hcomponents, hrelative]
      simp [opening, onward, hfirst]

theorem isAbsolute_of_head? {p : Path} (h : p.components.head? = some .root) :
    p.isAbsolute = true := by
  have hp : p.bytes ≠ [] := by
    intro hnil
    have hnone : p.components = [] := by
      simp [components, segments, isAbsolute, hnil, Bytes.splitOn]
    rw [hnone] at h
    cases h
  obtain ⟨stretches, -, hcomponents⟩ := exists_stretches hp
  cases habsolute : p.isAbsolute with
  | true => rfl
  | false =>
    rw [hcomponents, habsolute] at h
    cases stretches with
    | nil => cases h
    | cons s rest => exact absurd (Option.some.inj h) (Component.ofSegment_ne_root s)

end Path

namespace Tree

variable {t : Tree}

/-- What stands above an entry is a directory that holds the next name on the way to it. -/
theorem directory_above {here rest : Location} {n : Name} {node : Node}
    (h : t.node? (here ++ n :: rest) = some node) :
    ∃ es child, t.node? here = some (.directory es) ∧ Entries.find? es n = some child ∧
      t.node? (here ++ [n]) = some child ∧ child.at? rest = some node := by
  have hway : (t.node? here).bind (·.at? (n :: rest)) = some node := by
    rw [← h, node?, node?, Node.at?_append]
  obtain ⟨above, habove, hat⟩ := Option.bind_eq_some_iff.mp hway
  cases above with
  | directory es =>
    obtain ⟨child, hchild, hrest⟩ := Option.bind_eq_some_iff.mp hat
    exact ⟨es, child, habove, hchild, (node?_concat habove n).trans hchild, hrest⟩
  | file | link | device => cases hat

/-- Whether a link stands at a place. -/
def IsLink (t : Tree) (loc : Location) : Prop := ∃ target, t.node? loc = some (.link target)

theorem not_isLink_of_directory {loc : Location} {es : Entries}
    (h : t.node? loc = some (.directory es)) : ¬t.IsLink loc := by
  rintro ⟨target, hlink⟩
  cases h.symm.trans hlink

theorem not_isLink_root (t : Tree) : ¬t.IsLink [] := not_isLink_of_directory rfl

/-- Nothing lies below a link. -/
theorem not_isLink_of_prefix {front loc : Location} {node : Node} (hnode : t.node? loc = some node)
    (hloc : ¬t.IsLink loc) (hfront : front <+: loc) : ¬t.IsLink front := by
  obtain ⟨rest, rfl⟩ := hfront
  cases rest with
  | nil => rwa [List.append_nil] at hloc
  | cons n rest =>
    obtain ⟨es, child, hdir, -⟩ := directory_above hnode
    exact not_isLink_of_directory hdir

end Tree

namespace Resolution

variable {t : Tree} {here loc : Location} {node : Node}

/-- A way that starts at no link ends at none: what it comes to is looked at, and a link on the way
is only ever followed. -/
theorem not_isLink_of_advance {todo : List Bytes} {progress : Progress} (hhere : ¬t.IsLink here)
    (h : advance t .follow here todo = .ok progress) :
    (∀ loc node, progress = .arrived (.entry loc node) → ¬t.IsLink loc) ∧
      ∀ dir path rest, progress = .link dir path rest → ¬t.IsLink dir := by
  induction todo generalizing here with
  | nil =>
    simp only [advance] at h
    split at h
    · cases h
      refine ⟨?_, by rintro _ _ _ ⟨⟩⟩
      rintro loc node ⟨⟩
      exact hhere
    · cases h
  | cons x rest ih =>
    cases hnode : t.node? here with
    | none => simp [advance, hnode] at h
    | some above =>
      cases above with
      | file | link | device => simp [advance, hnode] at h
      | directory es =>
        simp only [advance, hnode, reduceCtorEq, false_and, and_false, if_false] at h
        by_cases hdot : x = [] ∨ x = [Bytes.dot]
        · rw [if_pos hdot] at h
          exact ih hhere h
        rw [if_neg hdot] at h
        by_cases hdots : x = [Bytes.dot, Bytes.dot]
        · rw [if_pos hdots] at h
          exact ih (Tree.not_isLink_of_prefix hnode hhere (List.dropLast_prefix here)) h
        rw [if_neg hdots] at h
        split at h
        · cases h
        cases hname : Name.ofBytes? x with
        | none =>
          rw [hname] at h
          cases h
        | some name =>
          simp only [hname] at h
          split at h
          · split at h
            · cases h
              exact ⟨by rintro _ _ ⟨⟩, by rintro _ _ _ ⟨⟩⟩
            · cases h
          · cases h
            refine ⟨by rintro _ _ ⟨⟩, ?_⟩
            rintro dir path rest ⟨⟩
            exact hhere
          · rename_i child hlink hchild
            refine ih ?_ h
            rintro ⟨target, htarget⟩
            rw [Tree.node?_concat hnode, hchild] at htarget
            exact hlink target (Option.some.inj htarget)

theorem not_isLink_of_resolveFrom {links : Nat} {todo : List Bytes} (hhere : ¬t.IsLink here)
    (h : resolveFrom t .follow links here todo = .ok (.entry loc node)) : ¬t.IsLink loc := by
  induction links using Nat.strongRecOn generalizing here todo with
  | ind links ih =>
    rw [resolveFrom_eq] at h
    split at h
    · cases h
    · rename_i target hadvance
      cases h
      exact (not_isLink_of_advance hhere hadvance).1 loc node rfl
    · rename_i dir path rest hadvance
      have hdir : ¬t.IsLink dir := (not_isLink_of_advance hhere hadvance).2 dir path rest rfl
      cases links with
      | zero => cases h
      | succ left =>
        dsimp only at h
        split at h
        · cases h
        · refine ih left (Nat.lt_succ_self left) ?_ h
          split
          · exact t.not_isLink_root
          · exact hdir

/-- The names of a place lead to what stands there, unless that is a link. -/
theorem advance_names (hnode : t.node? (here ++ loc) = some node) (hloc : ¬t.IsLink (here ++ loc)) :
    advance t .follow here (loc.map (·.bytes)) = .ok (.arrived (.entry (here ++ loc) node)) := by
  induction loc generalizing here with
  | nil =>
    rw [List.append_nil] at hnode ⊢
    simp [advance, hnode]
  | cons n rest ih =>
    obtain ⟨es, child, hdir, hfind, hchild, -⟩ := Tree.directory_above hnode
    have hlong : ¬maxName < n.bytes.length := Nat.not_lt.mpr n.length_le
    have hsplit : here ++ n :: rest = here ++ [n] ++ rest := by simp
    rw [hsplit] at hnode hloc ⊢
    have hrest := ih hnode hloc
    have hlink : ¬t.IsLink (here ++ [n]) :=
      Tree.not_isLink_of_prefix hnode hloc (List.prefix_append _ rest)
    cases child with
    | link target => exact absurd ⟨target, hchild⟩ hlink
    | file | directory | device =>
      simp [advance, hdir, n.bytes_ne_nil, n.bytes_ne_dot, n.bytes_ne_dots, hlong, hfind, hrest]

theorem validate_eq_ok {p : Path} (hzero : (0 : UInt8) ∉ p.bytes) (hp : p.bytes ≠ []) :
    validate p = .ok () := by
  simp [validate, hzero, hp]

end Resolution

namespace FileSystem

open Groom.Path (Component)

theorem anchored_write_ofSegment (q : Path) (s : Bytes) :
    anchored.write q (.ofSegment s) = if s = [Bytes.dot] then q else q.join ⟨s⟩ := by
  unfold Component.ofSegment
  split
  · rfl
  · split
    · subst s
      rfl
    · rfl

/-- Steps that are added to a path come after its own, single dots excepted. -/
theorem components_foldl_write {q : Path} (hq : q.bytes ≠ []) {stretches : List Bytes}
    (h : ∀ s ∈ stretches, s ≠ [] ∧ Bytes.slash ∉ s) :
    let written := (stretches.map Component.ofSegment).foldl anchored.write q
    written.bytes ≠ [] ∧
      written.components = q.components ++ (stretches.map .ofSegment).filter (· ≠ .here) := by
  induction stretches generalizing q with
  | nil => exact ⟨hq, (List.append_nil _).symm⟩
  | cons s rest ih =>
    obtain ⟨⟨hs, hpure⟩, hrest⟩ := List.forall_mem_cons.mp h
    simp only [List.map_cons, List.foldl_cons, anchored_write_ofSegment]
    split
    · rename_i hdot
      have hhere : Component.ofSegment s = .here := by simp [Component.ofSegment, hdot]
      simpa [hhere] using ih hq hrest
    · rename_i hdot
      have hhere : Component.ofSegment s ≠ .here := by
        simp only [Component.ofSegment, if_neg hdot]
        split <;> simp
      have hjoin : (q.join ⟨s⟩).components = q.components ++ [.ofSegment s] := by
        rw [Path.components_join hq hpure]
        simp [Path.onward, Path.blank, hs, hdot]
      have hne : (q.join ⟨s⟩).bytes ≠ [] := by
        unfold Path.join
        split
        · exact hs
        · split <;> simp [hs]
      obtain ⟨hne', hcomponents⟩ := ih hne hrest
      refine ⟨hne', ?_⟩
      rw [hcomponents, hjoin, List.filter_cons_of_pos (by simpa using hhere), List.append_assoc]
      rfl

/-- The steps of a path that is written out from the root: those of the directory from which it is
seen, and its own, where single dots are dropped. -/
theorem components_anchored {here p : Path} (hp : p.bytes ≠ [])
    (hhere : p.isAbsolute = false → here.bytes ≠ []) :
    (anchored here p).components = if p.isAbsolute then p.components.filter (· ≠ .here)
      else here.components ++ p.components.filter (· ≠ .here) := by
  obtain ⟨stretches, hpure, hcomponents⟩ := Path.exists_stretches hp
  let start := anchored.start here p
  have hstart : start.bytes ≠ [] ∧
      start.components = if p.isAbsolute then [.root] else here.components := by
    have hone : Path.components ⟨[Bytes.slash]⟩ = [.root] := by decide
    have htwo : Path.components ⟨[Bytes.slash, Bytes.slash]⟩ = [.root] := by decide
    unfold start anchored.start
    cases habsolute : p.isAbsolute with
    | false => exact ⟨hhere habsolute, rfl⟩
    | true =>
      simp only [Bool.not_true, Bool.false_eq_true, if_false, if_true]
      split
      · exact ⟨List.cons_ne_nil _ _, htwo⟩
      · exact ⟨List.cons_ne_nil _ _, hone⟩
  -- the root is where the writing starts, so as a step it adds nothing
  have hfold : p.components.foldl anchored.write start =
      (stretches.map Component.ofSegment).foldl anchored.write start := by
    rw [hcomponents]
    cases p.isAbsolute <;> rfl
  obtain ⟨hne, hwritten⟩ := components_foldl_write hstart.1 hpure
  have hend : (anchored here p).components =
      (p.components.foldl anchored.write start).components := by
    unfold anchored
    dsimp only
    split
    · rw [Path.components_join (hfold ▸ hne) List.not_mem_nil]
      exact List.append_nil _
    · rfl
  rw [hend, hfold, hwritten, hstart.2, hcomponents]
  cases p.isAbsolute <;> simp

open Resolution

variable {fs : FileSystem} {p q : Path} {loc loc' : Location} {node node' : Node}

/-- A path leads to an entry, and may be of any length. -/
def Denotes (fs : FileSystem) (p : Path) (loc : Location) (node : Node) : Prop :=
  ofPath fs.tree fs.cwd .follow p = .ok (.entry loc node)

/-- A path can be seen from the root: it starts there, or the working directory is still there. -/
def Anchors (fs : FileSystem) (p : Path) : Prop := p.isAbsolute = true ∨ fs.here? ≠ none

theorem absolute_of_denotes (hp : fs.Anchors p) (h : fs.Denotes p loc node) :
    fs.absolute p = pathOf loc := by
  have hthere : ¬(!p.isAbsolute ∧ fs.here? = none) := by
    rintro ⟨hrelative, hgone⟩
    rcases hp with habsolute | hhere
    · simp [habsolute] at hrelative
    · exact hhere hgone
  unfold absolute canonical
  rw [if_neg hthere, show ofPath fs.tree fs.cwd .follow p = _ from h]

theorem steps_ne_nil (hp : p.bytes ≠ []) : steps p ≠ [] := by
  intro hnone
  unfold steps at hnone
  split at hnone
  · simp at hnone
  · rename_i hlast
    have hempty : ∀ s ∈ Bytes.splitOn Bytes.slash p.bytes, s = [] := by
      simpa [Path.segments, List.filter_eq_nil_iff] using hnone
    obtain ⟨first, rest, hsplit⟩ :=
      List.exists_cons_of_ne_nil (Bytes.splitOn_ne_nil Bytes.slash p.bytes)
    rw [hsplit] at hempty
    obtain ⟨rfl, hrest⟩ := List.forall_mem_cons.mp hempty
    have hbytes : p.bytes = rest.flatMap (Bytes.slash :: ·) := by
      rw [← Bytes.joinWith_splitOn Bytes.slash p.bytes, hsplit, Bytes.joinWith_cons,
        List.nil_append]
    -- the last stretch is empty, so a slash stands at the end
    rcases List.eq_nil_or_concat rest with rfl | ⟨front, last, rfl⟩
    · exact hp hbytes
    · obtain rfl : last = [] := hrest last (by simp)
      exact hlast (by simp [hbytes])

theorem denotes_iff (hp : fs.Anchors p) : fs.Denotes p loc node ↔
    Resolution.validate p = .ok () ∧ resolveFrom fs.tree .follow maxLinks
      (if p.isAbsolute then [] else fs.cwd.place) (steps p) = .ok (.entry loc node) := by
  unfold Denotes ofPath
  cases hvalid : Resolution.validate p with
  | error e => simp [bind, Except.bind]
  | ok _ =>
    cases habsolute : p.isAbsolute with
    | true => simp [bind, Except.bind]
    | false =>
      have hthere : fs.cwd.lost fs.tree = 0 := by
        by_contra hlost
        rcases hp with h | h
        · cases h.symm.trans habsolute
        · exact h (if_neg hlost)
      simp [bind, Except.bind, hthere, resolveBelow]

/-- What a path leads to is no link. -/
theorem Denotes.not_isLink (hp : fs.Anchors p) (h : fs.Denotes p loc node) :
    fs.tree.node? loc = some node ∧ ¬fs.tree.IsLink loc := by
  obtain ⟨hvalid, hr⟩ := (denotes_iff hp).mp h
  refine ⟨node?_of_resolveFrom hr, not_isLink_of_resolveFrom ?_ hr⟩
  split
  · exact fs.tree.not_isLink_root
  · have hne : p.bytes ≠ [] := by
      intro hnil
      simp [Resolution.validate, hnil] at hvalid
    obtain ⟨x, rest, hsteps⟩ := List.exists_cons_of_ne_nil (steps_ne_nil hne)
    -- a path with a step leads on from the working directory, so that is a directory
    rintro ⟨target, hlink⟩
    rw [if_neg ‹_›, hsteps] at hr
    obtain ⟨es, hes⟩ := directory_of_resolveFrom_cons hlink hr
    cases hes

theorem components_pathOf (loc : Location) :
    (pathOf loc).components = .root :: loc.map (Component.name ·.bytes) := by
  have hroot : Path.components ⟨[Bytes.slash]⟩ = [.root] := by decide
  rw [pathOf_eq_below, Path.components_below, hroot]
  rfl

theorem bytes_pathOf_ne_nil (loc : Location) : (pathOf loc).bytes ≠ [] := by
  intro hnil
  have habsolute := isAbsolute_pathOf loc
  simp [Path.isAbsolute, hnil] at habsolute

theorem bytes_pathOf_of_ne_nil (hloc : loc ≠ []) :
    (pathOf loc).bytes = Bytes.joinWith Bytes.slash ([] :: loc.map (·.bytes)) := by
  rw [pathOf, if_neg hloc, Bytes.joinWith_cons]
  rfl

theorem zero_notMem_pathOf (loc : Location) : (0 : UInt8) ∉ (pathOf loc).bytes := by
  unfold pathOf
  split
  · decide
  · intro hzero
    obtain ⟨n, -, hmem⟩ : ∃ n ∈ loc, (0 : UInt8) ∈ Bytes.slash :: n.bytes := by
      simpa [Path.ofNames] using hzero
    rcases List.mem_cons.mp hmem with h | h
    · cases h
    · exact n.zero_notMem h

theorem splitOn_pathOf (loc : Location) : Bytes.splitOn Bytes.slash (pathOf loc).bytes =
    [] :: if loc = [] then [[]] else loc.map (·.bytes) := by
  by_cases hroot : loc = []
  · subst hroot
    decide
  · have hpure : ∀ s ∈ [] :: loc.map (·.bytes), Bytes.slash ∉ s := by
      refine List.forall_mem_cons.mpr ⟨List.not_mem_nil, fun s hs => ?_⟩
      obtain ⟨n, -, rfl⟩ := List.mem_map.mp hs
      exact n.slash_notMem
    rw [if_neg hroot, bytes_pathOf_of_ne_nil hroot,
      Bytes.splitOn_joinWith (List.cons_ne_nil _ _) hpure]

theorem steps_pathOf (hloc : loc ≠ []) : steps (pathOf loc) = loc.map (·.bytes) := by
  obtain ⟨front, n, hfront⟩ := (List.eq_nil_or_concat loc).resolve_left hloc
  have hlast : (pathOf loc).bytes.getLast? ≠ some Bytes.slash := by
    rw [pathOf_eq_below, hfront, List.concat_eq_append, Path.below_concat]
    exact Path.getLast?_child _ n
  have hnames : (loc.map (·.bytes)).filter (· ≠ []) = loc.map (·.bytes) := by
    refine List.filter_eq_self.mpr fun s hs => ?_
    obtain ⟨n, -, rfl⟩ := List.mem_map.mp hs
    simpa using n.bytes_ne_nil
  rw [steps, if_neg hlast, Path.segments, splitOn_pathOf, if_neg hloc]
  exact hnames

/-- The path of a place leads to what stands there, unless that is a link. -/
theorem denotes_pathOf (hnode : fs.tree.node? loc = some node) (hloc : ¬fs.tree.IsLink loc) :
    fs.Denotes (pathOf loc) loc node := by
  have habsolute := isAbsolute_pathOf loc
  have hvalid := Resolution.validate_eq_ok (zero_notMem_pathOf loc) (bytes_pathOf_ne_nil loc)
  refine (denotes_iff (.inl habsolute)).mpr ⟨hvalid, ?_⟩
  rw [if_pos habsolute, resolveFrom_eq]
  by_cases hroot : loc = []
  · subst hroot
    have hsteps : steps (pathOf []) = [[]] := by decide
    obtain rfl : fs.tree.root = node := Option.some.inj hnode
    rw [hsteps]
    rfl
  · have hway : advance fs.tree .follow [] (loc.map (·.bytes)) = .ok (.arrived (.entry loc node)) :=
      advance_names hnode hloc
    rw [steps_pathOf hroot, hway]

/-- A path that is written as the names on the way to an entry, with one slash before each of them,
and that passes no link. -/
structure Direct (fs : FileSystem) (p : Path) (loc : Location) (node : Node) : Prop where
  isAbsolute : p.isAbsolute = true
  components : p.components = .root :: loc.map (Component.name ·.bytes)
  stretches : Bytes.splitOn Bytes.slash p.bytes =
    [] :: if loc = [] then [[]] else loc.map (·.bytes)
  plain : ∀ front, front <+: loc → ¬fs.tree.IsLink front
  denotes : fs.Denotes p loc node

/-- The absolute form of a path that leads to an entry is the direct path to that entry. -/
theorem direct_absolute (hp : fs.Anchors p) (h : fs.Denotes p loc node) :
    fs.Direct (fs.absolute p) loc node := by
  obtain ⟨hnode, hloc⟩ := h.not_isLink hp
  rw [absolute_of_denotes hp h]
  refine ⟨isAbsolute_pathOf loc, components_pathOf loc, splitOn_pathOf loc, ?_,
    denotes_pathOf hnode hloc⟩
  exact fun front hfront => Tree.not_isLink_of_prefix hnode hloc hfront

theorem absolute_absolute (hp : fs.Anchors p) (h : fs.Denotes p loc node) :
    fs.absolute (fs.absolute p) = fs.absolute p := by
  have hdirect := direct_absolute hp h
  rw [absolute_of_denotes (.inl hdirect.isAbsolute) hdirect.denotes, absolute_of_denotes hp h]

/-- Two paths have the same absolute form if and only if they lead to one entry. -/
theorem absolute_eq_iff (hp : fs.Anchors p) (hq : fs.Anchors q) (h : fs.Denotes p loc node)
    (h' : fs.Denotes q loc' node') : fs.absolute p = fs.absolute q ↔ loc = loc' := by
  rw [absolute_of_denotes hp h, absolute_of_denotes hq h', pathOf_injective.eq_iff]

theorem eq_pathOf_of_here? {here : Path} (h : fs.here? = some here) :
    here = pathOf fs.cwd.place := by
  unfold here? at h
  split at h
  · exact (Option.some.inj h).symm
  · cases h

/-- The absolute form of a path that leads to nothing is the path as it is written, seen from the
working directory. -/
theorem components_absolute {here : Path} (hhere : fs.here? = some here) (hp : p.bytes ≠ [])
    (hnone : ∀ loc node, ¬fs.Denotes p loc node) : (fs.absolute p).components =
      (if p.isAbsolute then p.components else here.components ++ p.components).filter
        (· ≠ .here) := by
  obtain ⟨e, hcanonical⟩ : ∃ e, fs.canonical p = .error e := by
    unfold canonical
    rw [if_neg (by simp [hhere])]
    split
    · exact absurd ‹_› (hnone _ _)
    · exact ⟨_, rfl⟩
    · exact ⟨_, rfl⟩
  have hplace := eq_pathOf_of_here? hhere
  have hdots : here.components.filter (· ≠ .here) = here.components := by
    simp [hplace, components_pathOf]
  unfold absolute
  rw [hcanonical]
  dsimp only
  rw [if_neg hp]
  cases habsolute : p.isAbsolute with
  | true =>
    have hanchored : (anchored ⟨[]⟩ p).components = _ :=
      components_anchored hp (by simp [habsolute])
    simpa [habsolute] using hanchored
  | false =>
    have hne : here.bytes ≠ [] := hplace ▸ bytes_pathOf_ne_nil fs.cwd.place
    have hanchored := components_anchored hp fun _ => hne
    simp only [Bool.false_eq_true, if_false, hhere, List.filter_append, hdots]
    simpa [habsolute] using hanchored

/-- It starts at the root all the same. -/
theorem isAbsolute_absolute {here : Path} (hhere : fs.here? = some here) (hp : p.bytes ≠ [])
    (hnone : ∀ loc node, ¬fs.Denotes p loc node) : (fs.absolute p).isAbsolute = true := by
  obtain ⟨rest, hrest⟩ : ∃ rest, (if p.isAbsolute then p.components
      else here.components ++ p.components) = .root :: rest := by
    obtain ⟨stretches, -, hcomponents⟩ := Path.exists_stretches hp
    cases habsolute : p.isAbsolute with
    | true => exact ⟨_, by simpa [habsolute] using hcomponents⟩
    | false => exact ⟨_, by rw [eq_pathOf_of_here? hhere, components_pathOf]; rfl⟩
  apply Path.isAbsolute_of_head?
  rw [components_absolute hhere hp hnone, hrest]
  rfl

end FileSystem

end Groom
