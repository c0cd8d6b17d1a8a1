import Groom.Proofs.Operation
import Groom.Proofs.Resolution

/-! The walk over a tree that changes while it is walked. Between two members anything may happen to
the tree; still the members come in order, each is what it should be when it is found, and nothing
that was there all the time is missed. -/
namespace Groom.Walk

open Groom.Flow (Finds Reaches Yields moments)

variable {σ : Type} {s : Setting σ} {root : Path} {selection : Selection}

/-- How a walk finds its members: in the order of their places, and each a selected file in the tree
as it is then. What is known of the members before is the place of the last one. -/
def Fits (s : Setting σ) (root : Path) (selection : Selection) (last : Option Location)
    (path : Path) (w : World σ) (next : Option Location) : Prop :=
  ∃ place, next = some place ∧ path = root.below place ∧ (∀ p ∈ last, p.Before place) ∧
    (FileSystem.mk w.tree s.cwd).isFile path = true ∧ selection.accepts path = true

theorem finds_offer {last : Option Location} {place : Location} {rest : Flow (Run σ) Path}
    {w : World σ} (hlast : ∀ p ∈ last, p.Before place)
    (hrest : ∀ next w', next = last ∨ next = some place →
      Finds (Fits s root selection) next rest w') :
    Finds (Fits s root selection) last (offer s selection (root.below place) rest) w := by
  intro wanted hwanted
  have hanswer : ((FileSystem.mk w.tree s.cwd).isFile (root.below place) &&
      selection.accepts (root.below place)) = wanted := Except.ok.inj hwanted
  cases wanted with
  | false => exact hrest _ _ (.inl rfl)
  | true =>
    obtain ⟨hfile, haccepts⟩ := Bool.and_eq_true_iff.mp hanswer
    exact ⟨some place, ⟨place, rfl, rfl, hlast, hfile, haccepts⟩, fun w' => hrest _ w' (.inr rfl)⟩

/-- What comes after a visit of a place knows a place at or below that one, or what was known
before. -/
def Passed (place : Location) (last next : Option Location) : Prop :=
  next = last ∨ ∃ p, next = some p ∧ place <+: p

theorem finds_listing {depth : Nat} (place : Location) {rest : Flow (Run σ) Path}
    (hvisit : ∀ (child : Location) (kind : Kind) (last : Option Location) (rest : Flow (Run σ) Path)
      (w : World σ), (∀ p ∈ last, p.Before child) →
      (∀ next w', Passed child last next → Finds (Fits s root selection) next rest w') →
      Finds (Fits s root selection) last (visit s selection depth (root.below child) kind rest) w)
    (listing : List (Name × Kind)) (hsorted : listing.Pairwise fun a b => a.1.Before b.1)
    (last : Option Location) (w : World σ)
    (hlast : ∀ e ∈ listing, ∀ p ∈ last, p.Before (place ++ [e.1]))
    (hrest : ∀ next w', Passed place last next → Finds (Fits s root selection) next rest w') :
    Finds (Fits s root selection) last (listing.foldr (fun entry rest =>
      visit s selection depth ((root.below place).child entry.1) entry.2 rest) rest) w := by
  induction listing generalizing last w with
  | nil => exact hrest last w (.inl rfl)
  | cons e listing ih =>
    obtain ⟨hfirst, hsorted⟩ := List.pairwise_cons.mp hsorted
    rw [List.foldr_cons, ← Path.below_concat]
    refine hvisit _ _ last _ w (hlast e List.mem_cons_self) ?_
    intro next w' hnext
    refine ih hsorted next w' ?_ ?_
    · intro e' he' p hp
      rcases hnext with rfl | ⟨q, rfl, hq⟩
      · exact hlast e' (List.mem_cons_of_mem _ he') p hp
      -- what was found last is at or below this entry, and so before all entries that follow
      · obtain rfl : q = p := Option.some.inj hp
        exact Location.before_of_prefix hq (hfirst e' he')
    · intro next' w'' hnext'
      apply hrest next' w''
      rcases hnext' with rfl | hbelow
      · rcases hnext with hlast | ⟨q, hq, hqp⟩
        · exact .inl hlast
        · have hprefix : place <+: q := (List.prefix_append place [e.1]).trans hqp
          exact .inr ⟨q, hq, hprefix⟩
      · exact .inr hbelow

theorem passed_of_here {place : Location} {last next : Option Location}
    (h : next = last ∨ next = some place) : Passed place last next := by
  rcases h with h | h
  · exact .inl h
  · exact .inr ⟨place, h, List.prefix_rfl⟩

/-- A visit finds places at and below the one that is visited. -/
theorem finds_visit (depth : Nat) (place : Location) (kind : Kind) (last : Option Location)
    (rest : Flow (Run σ) Path) (w : World σ) (hlast : ∀ p ∈ last, p.Before place)
    (hrest : ∀ next w', Passed place last next → Finds (Fits s root selection) next rest w') :
    Finds (Fits s root selection) last
      (visit s selection depth (root.below place) kind rest) w := by
  -- a directory is offered itself before its entries, and its place comes before theirs
  induction depth generalizing place kind last rest w with
  | zero =>
    cases kind with
    | directory =>
      apply finds_offer hlast
      intro next w' hnext _ _
      exact hrest next _ (passed_of_here hnext)
    | file | link | device =>
      exact finds_offer hlast fun next w' hnext => hrest next w' (passed_of_here hnext)
  | succ depth ih =>
    cases kind with
    | file | link | device =>
      exact finds_offer hlast fun next w' hnext => hrest next w' (passed_of_here hnext)
    | directory =>
      intro answer hanswer
      obtain rfl : (FileSystem.mk w.tree s.cwd).list (root.below place) = answer :=
        Except.ok.inj hanswer
      cases hlist : (FileSystem.mk w.tree s.cwd).list (root.below place) with
      | error cause =>
        apply finds_offer hlast
        intro next w' hnext _ _
        exact hrest next _ (passed_of_here hnext)
      | ok listing =>
        have hsorted : listing.Pairwise fun a b => a.1.Before b.1 := FileSystem.pairwise_list hlist
        apply finds_offer hlast
        intro next w' hnext
        refine finds_listing place ih listing hsorted next w' ?_ ?_
        · intro e _ p hp
          rcases hnext with rfl | rfl
          · exact (hlast p hp).trans (Location.before_concat place e.1)
          · obtain rfl : place = p := Option.some.inj hp
            exact Location.before_concat place e.1
        · intro next' w'' hnext'
          apply hrest next' w''
          rcases hnext' with rfl | hbelow
          · exact passed_of_here hnext
          · exact .inr hbelow

theorem finds_targets (w : World σ) :
    Finds (Fits s root selection) none (targets s root selection) w := by
  have visited (kind : Kind) (w : World σ) : Finds (Fits s root selection) none
      (visit s selection Resolution.maxPath root kind .done) w :=
    finds_visit Resolution.maxPath [] kind none .done w nofun fun _ _ _ => trivial
  intro answer _
  rcases answer with cause | ⟨_, _⟩ | target | entries | _
  · exact fun _ _ => trivial
  · exact visited _ _
  · intro answer _
    cases answer with
    | error cause => exact fun _ _ => trivial
    | ok node => exact visited _ _
  · exact visited _ _
  · exact visited _ _

/-- Members that fit stand in the order of their places, after what was known before, and each is a
selected file when it is found. -/
theorem places_of_finds {flow left : Flow (Run σ) Path} {w w' : World σ}
    {found : List (Path × World σ)} (h : Yields flow w found left w') (last : Option Location)
    (hfinds : Finds (Fits s root selection) last flow w) :
    (∃ places : List Location, found.map (·.1) = places.map root.below ∧
      places.Pairwise Location.Before ∧ ∀ p ∈ last, ∀ q ∈ places, p.Before q) ∧
    ∀ x ∈ found, (FileSystem.mk x.2.tree s.cwd).isFile x.1 = true ∧
      selection.accepts x.1 = true := by
  induction h generalizing last with
  | stay => exact ⟨⟨[], rfl, .nil, nofun⟩, nofun⟩
  | @next path rest left w w' w'' found h ih =>
    obtain ⟨_, ⟨place, rfl, rfl, hlast, hfile, haccepts⟩, hrest⟩ := hfinds
    obtain ⟨⟨places, hplaces, hsorted, hafter⟩, hfits⟩ := ih _ (hrest w')
    refine ⟨⟨place :: places, by rw [List.map_cons, List.map_cons, hplaces], ?_, ?_⟩, ?_⟩
    · exact List.pairwise_cons.mpr ⟨hafter place rfl, hsorted⟩
    · intro p hp
      refine List.forall_mem_cons.mpr ⟨hlast p hp, fun q hq => ?_⟩
      exact (hlast p hp).trans (hafter place rfl q hq)
    · exact List.forall_mem_cons.mpr ⟨⟨hfile, haccepts⟩, hfits⟩
  | ask hr h ih => exact ih last (hfinds _ hr)

theorem nodup_of_places {paths : List Path} {places : List Location}
    (hplaces : paths = places.map root.below) (hsorted : places.Pairwise Location.Before) :
    paths.Nodup := by
  rw [hplaces]
  refine List.pairwise_map.mpr (hsorted.imp ?_)
  intro p q hpq heq
  obtain rfl := Path.below_injective root heq
  exact Location.Before.irrefl p hpq

theorem root_of_yields {left : Flow (Run σ) Path} {w w' : World σ} {found : List (Path × World σ)}
    (h : Yields (targets s root selection) w found left w') (hfound : found ≠ []) :
    root.bytes ≠ [] := by
  intro hroot
  -- the empty path leads nowhere, and a walk from nowhere is at its end after one complaint
  have hnone : (FileSystem.mk w.tree s.cwd).linkStatus root = .error .notFound := by
    rw [← show Path.mk [] = root from congrArg Path.mk hroot.symm]
    rfl
  cases h with
  | stay => exact hfound rfl
  | ask hr h =>
    obtain rfl := hnone.symm.trans (Except.ok.inj hr)
    cases h with
    | stay => exact hfound rfl
    | ask hr h =>
      cases h
      exact hfound rfl

/-- A place below a root at which there is a regular file, or a link that leads to one, and to which
only directories lead, none of them a link. The root may be a link, but it must be a path. -/
structure Reachable (fs : FileSystem) (root : Path) (place : Location) : Prop where
  rooted : root.bytes ≠ []
  above : ∀ front, front ≠ [] → front <+: place → front ≠ place →
    ∃ es, fs.linkStatus (root.below front) = .ok (.directory es)
  file : fs.isFile (root.below place) = true

namespace Reachable

variable {fs : FileSystem} {place front more : Location} {n : Name}

theorem status_eq (h : Reachable fs root place) :
    ∃ content executable, fs.status (root.below place) = .ok (.file content executable) :=
  FileSystem.status_of_isFile h.file

/-- The way to a place goes on, in the directory that stands there, with an entry that is a
directory again or else the last one. -/
theorem entry_on_way (h : Reachable fs root (front ++ n :: more)) :
    ((root.below front).child n).bytes.length ≤ Resolution.maxPath ∧
    ∃ es node, fs.status (root.below front) = .ok (.directory es) ∧
      Entries.find? es n = some node ∧ (node.kind = .directory ↔ more ≠ []) := by
  have hfront : (root.below front).bytes ≠ [] := Path.below_bytes_ne_nil h.rooted front
  by_cases hmore : more = []
  · subst hmore
    obtain ⟨content, executable, hstatus⟩ := h.status_eq
    rw [Path.below_concat] at hstatus
    obtain ⟨es, node, hes, hfind, hnode⟩ := FileSystem.entry_child (by decide) hfront hstatus
    refine ⟨FileSystem.length_le_of_entry hstatus, es, node, hes, hfind, ?_⟩
    rcases hnode with rfl | ⟨-, hlink⟩
    · simp [Node.kind]
    · simp [hlink]
  · have hproper : front ++ [n] ≠ front ++ n :: more := by simpa using Ne.symm hmore
    obtain ⟨es', hlinkStatus⟩ := h.above (front ++ [n]) (by simp) ⟨more, by simp⟩ hproper
    rw [Path.below_concat] at hlinkStatus
    obtain ⟨es, node, hes, hfind, hnode⟩ := FileSystem.entry_child (by decide) hfront hlinkStatus
    refine ⟨FileSystem.length_le_of_entry hlinkStatus, es, node, hes, hfind, ?_⟩
    rcases hnode with rfl | ⟨hname, -⟩
    · simp [Node.kind, hmore]
    · exact absurd rfl hname

theorem root_status (h : Reachable fs root place) :
    ∃ node, fs.status root = .ok node ∧ (node.kind = .directory ↔ place ≠ []) := by
  cases place with
  | nil =>
    obtain ⟨content, executable, hstatus⟩ := h.status_eq
    exact ⟨_, hstatus, by simp [Node.kind]⟩
  | cons n more =>
    have hway : Reachable fs root ([] ++ n :: more) := h
    obtain ⟨-, es, node, hes, -, -⟩ := hway.entry_on_way
    exact ⟨.directory es, hes, by simp [Node.kind]⟩

end Reachable

theorem reaches_offer {place : Location} {wanted : Tree → Prop} {rest : Flow (Run σ) Path}
    {w : World σ} (haccepts : selection.accepts (root.below place) = true)
    (hfile : (FileSystem.mk w.tree s.cwd).isFile (root.below place) = true) :
    Reaches wanted (root.below place) (offer s selection (root.below place) rest) w := by
  intro answer hanswer
  have htrue : true = answer := by
    rw [← show _ = answer from Except.ok.inj hanswer]
    exact (Bool.and_eq_true_iff.mpr ⟨hfile, haccepts⟩).symm
  subst htrue
  exact .inl rfl

theorem reaches_past_offer {target : Path} {path : Path} {wanted : Tree → Prop}
    {rest : Flow (Run σ) Path} (hrest : ∀ w, wanted w.tree → Reaches wanted target rest w)
    (w : World σ) (hw : wanted w.tree) :
    Reaches wanted target (offer s selection path rest) w := by
  intro answer _
  cases answer with
  | true => exact .inr hrest
  | false => exact hrest w hw

theorem reaches_past_skip {target path : Path} {cause : IoError} {wanted : Tree → Prop}
    {rest : Flow (Run σ) Path} (hrest : ∀ w, wanted w.tree → Reaches wanted target rest w)
    (w : World σ) (hw : wanted w.tree) :
    Reaches wanted target (.ask (skip path cause) fun _ => rest) w :=
  fun _ _ => hrest _ hw

theorem reaches_past_listing {target path : Path} {wanted : Tree → Prop} {depth : Nat}
    (hvisit : ∀ (path : Path) (kind : Kind) (rest : Flow (Run σ) Path),
      (∀ w, wanted w.tree → Reaches wanted target rest w) →
      ∀ w : World σ, wanted w.tree →
        Reaches wanted target (visit s selection depth path kind rest) w)
    {rest : Flow (Run σ) Path} (hrest : ∀ w, wanted w.tree → Reaches wanted target rest w)
    (listing : List (Name × Kind)) (w : World σ) (hw : wanted w.tree) :
    Reaches wanted target (listing.foldr (fun entry rest =>
      visit s selection depth (path.child entry.1) entry.2 rest) rest) w := by
  induction listing generalizing w with
  | nil => exact hrest w hw
  | cons e listing ih => exact hvisit _ _ _ ih w hw

theorem reaches_past_visit {target : Path} {wanted : Tree → Prop} (depth : Nat) (path : Path)
    (kind : Kind) (rest : Flow (Run σ) Path)
    (hrest : ∀ w, wanted w.tree → Reaches wanted target rest w) (w : World σ)
    (hw : wanted w.tree) : Reaches wanted target (visit s selection depth path kind rest) w := by
  induction depth generalizing path kind rest w with
  | zero =>
    cases kind with
    | directory => exact reaches_past_offer (reaches_past_skip hrest) w hw
    | file | link | device => exact reaches_past_offer hrest w hw
  | succ depth ih =>
    cases kind with
    | file | link | device => exact reaches_past_offer hrest w hw
    | directory =>
      intro answer _
      cases answer with
      | error cause => exact reaches_past_offer (reaches_past_skip hrest) _ hw
      | ok listing => exact reaches_past_offer (reaches_past_listing ih hrest listing) _ hw

/-- While a place can be reached, a visit on the way to it comes to it: what stands on the way was
listed as a directory, and at its end as something else. -/
theorem reaches_visit {place : Location} (haccepts : selection.accepts (root.below place) = true)
    (depth : Nat) (front more : Location) (hplace : front ++ more = place) (kind : Kind)
    (hkind : kind = .directory ↔ more ≠ [])
    (hdepth : Resolution.maxPath ≤ depth + (root.below front).bytes.length)
    (rest : Flow (Run σ) Path) (w : World σ) (hw : Reachable ⟨w.tree, s.cwd⟩ root place) :
    Reaches (fun t => Reachable ⟨t, s.cwd⟩ root place) (root.below place)
      (visit s selection depth (root.below front) kind rest) w := by
  -- the path grows as fast as the depth shrinks, so the depth is not used up before the end
  induction depth generalizing front more kind rest w with
  | zero =>
    cases more with
    | nil =>
      obtain rfl : front = place := by rw [← hplace, List.append_nil]
      cases kind with
      | directory => exact absurd rfl (hkind.mp rfl)
      | file | link | device => exact reaches_offer haccepts hw.file
    | cons n more =>
      subst hplace
      have hlength := Path.length_child (root.below front) n
      have hshort := hw.entry_on_way.1
      have hname : 0 < n.bytes.length := List.length_pos_iff.mpr n.bytes_ne_nil
      omega
  | succ depth ih =>
    cases more with
    | nil =>
      obtain rfl : front = place := by rw [← hplace, List.append_nil]
      cases kind with
      | directory => exact absurd rfl (hkind.mp rfl)
      | file | link | device => exact reaches_offer haccepts hw.file
    | cons n more =>
      subst hplace
      obtain rfl : kind = .directory := hkind.mpr (List.cons_ne_nil n more)
      obtain ⟨-, es, node, hes, hfind, hnode⟩ := hw.entry_on_way
      have hlist := FileSystem.list_eq_ok_iff.mpr ⟨es, hes, rfl⟩
      intro answer hanswer
      obtain rfl : .ok (Entries.kinds es) = answer := hlist.symm.trans (Except.ok.inj hanswer)
      -- the entries before the one on the way are passed over
      have hmem : (n, node.kind) ∈ Entries.kinds es := Entries.mem_kinds.mpr ⟨node, hfind, rfl⟩
      obtain ⟨before, later, hkinds⟩ := List.append_of_mem hmem
      refine reaches_past_offer ?_ w hw
      intro w' hw'
      rw [hkinds, List.foldr_append]
      refine reaches_past_listing (reaches_past_visit depth) (fun w'' hw'' => ?_) before w' hw'
      have hdepth' : Resolution.maxPath ≤ depth + ((root.below front).child n).bytes.length := by
        have hlength := Path.length_child (root.below front) n
        have hname : 0 < n.bytes.length := List.length_pos_iff.mpr n.bytes_ne_nil
        omega
      have hpath : root.below (front ++ [n]) = (root.below front).join ⟨n.bytes⟩ :=
        Path.below_concat root front n
      rw [← Path.below_concat] at hdepth'
      dsimp only [List.foldr_cons]
      rw [← hpath]
      exact ih (front ++ [n]) more (by simp) node.kind hnode hdepth' _ w'' hw''

theorem reaches_targets {place : Location} (haccepts : selection.accepts (root.below place) = true)
    (w : World σ) (hw : Reachable ⟨w.tree, s.cwd⟩ root place) :
    Reaches (fun t => Reachable ⟨t, s.cwd⟩ root place) (root.below place)
      (targets s root selection) w := by
  obtain ⟨node, hstatus, hnode⟩ := hw.root_status
  obtain ⟨named, hlinkStatus, hnamed⟩ := FileSystem.linkStatus_of_status hstatus
  have visited : Reaches (fun t => Reachable ⟨t, s.cwd⟩ root place) (root.below place)
      (visit s selection Resolution.maxPath root node.kind .done) w :=
    reaches_visit haccepts Resolution.maxPath [] place rfl node.kind hnode (by omega) .done w hw
  intro answer hanswer
  obtain rfl : .ok named = answer := hlinkStatus.symm.trans (Except.ok.inj hanswer)
  cases named with
  | link target =>
    intro answer hanswer
    obtain rfl : .ok node = answer := hstatus.symm.trans (Except.ok.inj hanswer)
    exact visited
  | file | directory | device =>
    obtain rfl := hnamed.resolve_right (by simp [Node.kind])
    exact visited

/-- A walk over a tree that may change in any way between two members. Its members come in strict
order of their places below the root, so none comes twice; each is a selected regular file, or a
link to one, when it is found; and when the walk is at its end, it has found every selected place
that could be reached in all the trees it saw, once. -/
theorem walk_of_changing_tree (s : Setting σ) (root : Path) (selection : Selection)
    (w w' : World σ) (found : List (Path × World σ)) (left : Flow (Run σ) Path)
    (h : (targets s root selection).Yields w found left w') :
    (∃ places : List Location, found.map (·.1) = places.map root.below ∧
      places.Pairwise Location.Before) ∧
    (found.map (·.1)).Nodup ∧
    (∀ x ∈ found, (FileSystem.mk x.2.tree s.cwd).isFile x.1 = true ∧
      selection.accepts x.1 = true) ∧
    (left = .done → ∀ place, selection.accepts (root.below place) = true →
      (∀ t ∈ moments found w', Reachable ⟨t, s.cwd⟩ root place) →
      (found.map (·.1)).count (root.below place) = 1) := by
  obtain ⟨⟨places, hplaces, hsorted, -⟩, hfits⟩ := places_of_finds h none (finds_targets w)
  have hnodup : (found.map (·.1)).Nodup := nodup_of_places hplaces hsorted
  refine ⟨⟨places, hplaces, hsorted⟩, hnodup, hfits, ?_⟩
  intro hleft place haccepts hreachable
  have hidle := targets_idle s root selection
  have hstart := reaches_targets haccepts w (hreachable _ (h.start_mem_moments hidle))
  have hmem : root.below place ∈ found.map (·.1) := hstart.mem h hleft hidle hreachable
  exact Nat.le_antisymm (List.nodup_iff_count.mp hnodup _) (List.count_pos_iff.mpr hmem)

/-- A walk over two files, the second of which is removed when the first is found: the first is
found once, and the second is not. -/
theorem walk_of_tree_with_removal :
    let a : Name := ⟨[97], by decide⟩
    let b : Name := ⟨[98], by decide⟩
    let s : Setting Unit := ⟨⟨[], 0⟩, fun _ _ t => ⟨.ok .success, [], (), t⟩, .willing⟩
    let root : Path := ⟨[Bytes.slash]⟩
    let selection : Selection := .names ["a", "b"]
    let w : World Unit := ⟨⟨[(b, .file [] false), (a, .file [] false)], []⟩, (), []⟩
    let w' : World Unit := ⟨⟨[(a, .file [] false)], [[b]]⟩, (), []⟩
    let found : List (Path × World Unit) := [(root.below [a], w)]
    (targets s root selection).Yields w found .done w' ∧
      (found.map (·.1)).Nodup ∧
      (∀ x ∈ found, (FileSystem.mk x.2.tree s.cwd).isFile x.1 = true ∧
        selection.accepts x.1 = true) ∧
      (∀ t ∈ moments found w', Reachable ⟨t, s.cwd⟩ root [a]) ∧
      (found.map (·.1)).count (root.below [a]) = 1 := by
  intro a b s root selection w w' found
  have h : (targets s root selection).Yields w found .done w' := by
    refine .ask (r := .ok (.directory w.tree.entries)) rfl ?_
    refine .ask (r := .ok [(a, .file), (b, .file)]) rfl ?_
    refine .ask (r := false) rfl ?_
    refine .ask (r := true) rfl ?_
    refine @Yields.next Unit Path _ _ _ w w' w' [] ?_
    refine .ask (r := false) rfl ?_
    exact .stay _ _
  have hreach : ∀ t ∈ moments found w', Reachable ⟨t, s.cwd⟩ root [a] := by
    intro t ht
    have habove (front : Location) (h₁ : front ≠ []) (h₂ : front <+: [a]) (h₃ : front ≠ [a]) :
        ∃ es, (FileSystem.mk t s.cwd).linkStatus (root.below front) = .ok (.directory es) := by
      rcases List.prefix_cons_iff.mp h₂ with rfl | ⟨rest, rfl, hrest⟩
      · exact absurd rfl h₁
      · rw [List.prefix_nil.mp hrest] at h₃
        exact absurd rfl h₃
    rcases List.mem_cons.mp ht with rfl | ht
    · exact ⟨by decide, habove, rfl⟩
    · obtain rfl := List.mem_singleton.mp ht
      exact ⟨by decide, habove, rfl⟩
  obtain ⟨-, hnodup, hfits, hall⟩ := walk_of_changing_tree s root selection w w' found .done h
  exact ⟨h, hnodup, hfits, hreach, hall rfl [a] rfl hreach⟩

end Groom.Walk
