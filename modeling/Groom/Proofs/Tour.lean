import Groom.Proofs.Recession
import Groom.Proofs.Walk

/-! A walk as a list of pending entries. The first of them is visited; if it is a directory, what is
listed in it now is pending from then on. Nothing here bounds how deep a walk may go; but in trees
in which directories can only vanish a walk enters no directory twice, and none that was not there
when it began. -/
namespace Groom

namespace Location

/-- All places at and below the first place come before the second one. -/
def Clears (p q : Location) : Prop := ∀ r : Location, p <+: r → r.Before q

theorem Clears.before {p q r : Location} (h : p.Clears q) (hr : q <+: r) : p.Before r := by
  obtain ⟨more, rfl⟩ := hr
  have hq : p.Before q := h p List.prefix_rfl
  cases more with
  | nil => simpa using hq
  | cons n more => exact hq.trans (by simpa using Before.append_left q (q := []) .nil)

theorem Clears.below {p q r : Location} (h : p.Clears q) (hr : p <+: r) : r.Clears q :=
  fun _ hmore => h _ (hr.trans hmore)

end Location

namespace Walk

/-- An entry as it was listed: its place below the root of the walk, and its kind. -/
abbrev Entry := Location × Kind

variable {cwd : Working} {root : Path}

/-- The directory that a visit enters, if it enters one, as the place where that is. -/
def entered (cwd : Working) (root : Path) (visit : Entry × Tree) : Option Location :=
  match visit.1.2, (FileSystem.mk visit.2 cwd).resolve .follow (root.below visit.1.1) with
  | .directory, .ok (.entry loc (.directory _)) => some loc
  | _, _ => none

/-- The entries of the directory that a visit enters. -/
def children (fs : FileSystem) (root : Path) (entry : Entry) : List Entry :=
  match entry.2, fs.list (root.below entry.1) with
  | .directory, .ok listing => listing.map fun e => (entry.1 ++ [e.1], e.2)
  | _, _ => []

/-- Pending entries are visited one after another, each in a tree of its own, and some are left. -/
inductive Tour (cwd : Working) (root : Path) :
    List Entry → List (Entry × Tree) → List Entry → Prop
  | stay (pending : List Entry) : Tour cwd root pending [] pending
  | visit {entry : Entry} {rest left : List Entry} {t : Tree} {visits : List (Entry × Tree)}
      (h : Tour cwd root (children ⟨t, cwd⟩ root entry ++ rest) visits left) :
      Tour cwd root (entry :: rest) ((entry, t) :: visits) left

/-- A tour may go on with what is left. -/
theorem Tour.concat {pending rest : List Entry} {visits : List (Entry × Tree)} {entry : Entry}
    (h : Tour cwd root pending visits (entry :: rest)) (t : Tree) :
    Tour cwd root pending (visits ++ [(entry, t)]) (children ⟨t, cwd⟩ root entry ++ rest) := by
  generalize hleft : entry :: rest = left at h
  induction h with
  | stay pending =>
    subst hleft
    exact .visit (.stay _)
  | visit h ih => exact .visit (ih hleft)

theorem listed_of_child {fs : FileSystem} {entry child : Entry}
    (h : child ∈ children fs root entry) : entry.2 = .directory ∧
      ∃ listing, fs.list (root.below entry.1) = .ok listing ∧
        ∃ e ∈ listing, child = (entry.1 ++ [e.1], e.2) := by
  unfold children at h
  split at h
  · rename_i listing hkind hlist
    obtain ⟨e, he, rfl⟩ := List.mem_map.mp h
    exact ⟨hkind, listing, hlist, e, he, rfl⟩
  · cases h

theorem entered_eq_some_iff {t : Tree} {entry : Entry} {loc : Location} :
    entered cwd root (entry, t) = some loc ↔ entry.2 = .directory ∧ ∃ es,
      (FileSystem.mk t cwd).resolve .follow (root.below entry.1) =
        .ok (.entry loc (.directory es)) := by
  unfold entered
  dsimp only
  constructor
  · intro h
    split at h
    · rename_i loc' es hkind hresolve
      cases h
      exact ⟨hkind, es, hresolve⟩
    · cases h
  · rintro ⟨hkind, es, hresolve⟩
    rw [hkind, hresolve]

/-- A directory that is gone may still be entered, but nothing is in it. -/
theorem children_of_not_entered {t : Tree} {entry : Entry}
    (h : entered cwd root (entry, t) = none) : children ⟨t, cwd⟩ root entry = [] := by
  refine List.eq_nil_iff_forall_not_mem.mpr fun child hchild => ?_
  obtain ⟨hkind, listing, hlist, e, he, -⟩ := listed_of_child hchild
  obtain ⟨es, hes, rfl⟩ := FileSystem.list_eq_ok_iff.mp hlist
  obtain ⟨loc, hresolve⟩ | ⟨-, hgone⟩ := FileSystem.entry_eq_ok_iff.mp hes
  · cases h.symm.trans (entered_eq_some_iff.mpr ⟨hkind, es, hresolve⟩)
  · cases hgone
    cases he

/-- Every visit was pending at first, or was listed by an earlier one. -/
theorem Tour.length_visits {pending left : List Entry} {visits : List (Entry × Tree)}
    (h : Tour cwd root pending visits left) : visits.length + left.length =
      pending.length + (visits.flatMap fun v => children ⟨v.2, cwd⟩ root v.1).length := by
  induction h with
  | stay => simp
  | visit h ih =>
    rw [List.length_append] at ih
    simp only [List.flatMap_cons, List.length_append, List.length_cons]
    omega

/-- Children stand in the order of their places, each with all that is below it. -/
theorem pairwise_children (fs : FileSystem) (root : Path) (entry : Entry) :
    (children fs root entry).Pairwise fun a b => a.1.Clears b.1 := by
  unfold children
  split
  · rename_i listing _ hlist
    refine List.pairwise_map.mpr ((FileSystem.pairwise_list hlist).imp ?_)
    exact fun hbefore r hr => Location.before_of_prefix hr hbefore
  · exact .nil

theorem prefix_of_child {fs : FileSystem} {entry child : Entry}
    (h : child ∈ children fs root entry) : ∃ n, child.1 = entry.1 ++ [n] := by
  obtain ⟨-, listing, -, e, -, rfl⟩ := listed_of_child h
  exact ⟨e.1, rfl⟩

namespace Tour

variable {pending left : List Entry} {visits : List (Entry × Tree)}

theorem prefix_of_visit (h : Tour cwd root pending visits left) :
    ∀ v ∈ visits, ∃ e ∈ pending, e.1 <+: v.1.1 := by
  induction h with
  | stay => exact nofun
  | @visit entry rest left t visits h ih =>
    refine List.forall_mem_cons.mpr ⟨⟨entry, List.mem_cons_self, List.prefix_rfl⟩, ?_⟩
    intro v hv
    obtain ⟨e, he, hprefix⟩ := ih v hv
    obtain hchild | hrest := List.mem_append.mp he
    · obtain ⟨n, hn⟩ := prefix_of_child hchild
      have hbelow : entry.1 <+: e.1 := ⟨[n], hn.symm⟩
      exact ⟨entry, List.mem_cons_self, hbelow.trans hprefix⟩
    · exact ⟨e, List.mem_cons_of_mem _ hrest, hprefix⟩

/-- A walk visits places in their order, whatever happens to the tree meanwhile. -/
theorem pairwise_visits (h : Tour cwd root pending visits left)
    (hpending : pending.Pairwise fun a b => a.1.Clears b.1) :
    (visits.map (·.1.1)).Pairwise Location.Before := by
  induction h with
  | stay => exact .nil
  | @visit entry rest left t visits h ih =>
    obtain ⟨hfirst, hrest⟩ := List.pairwise_cons.mp hpending
    have hchildren (c : Entry) (hc : c ∈ children ⟨t, cwd⟩ root entry) (e : Entry)
        (he : e ∈ rest) : c.1.Clears e.1 := by
      obtain ⟨n, hn⟩ := prefix_of_child hc
      exact (hfirst e he).below ⟨[n], hn.symm⟩
    have hnext := List.pairwise_append.mpr ⟨pairwise_children ⟨t, cwd⟩ root entry, hrest, hchildren⟩
    refine List.pairwise_cons.mpr ⟨?_, ih hnext⟩
    intro place hplace
    obtain ⟨v, hv, rfl⟩ := List.mem_map.mp hplace
    -- what is visited later is below a child of the entry, or below an entry that was pending
    obtain ⟨e, he, hprefix⟩ := h.prefix_of_visit v hv
    obtain hchild | hrest := List.mem_append.mp he
    · obtain ⟨n, hn⟩ := prefix_of_child hchild
      obtain ⟨more, hmore⟩ := hprefix
      rw [← hmore, hn, List.append_assoc]
      simpa using Location.Before.append_left entry.1 (q := []) .nil
    · exact (hfirst e hrest).before hprefix

end Tour

/-- An entry that was listed as a directory, with no link on the way to it from the base. -/
def Plain (t : Tree) (base : Location) (entry : Entry) : Prop :=
  entry.2 = .directory →
    ∀ front, front ≠ [] → front <+: entry.1 → t.target? (base ++ front) = none

theorem Plain.recedes {t t' : Tree} {base : Location} {entry : Entry} (h : Plain t base entry)
    (ht : t.Recedes t') : Plain t' base entry :=
  fun hkind front hne hprefix => ht.target?_eq_none (h hkind front hne hprefix)

/-- What is listed as a directory in a directory to which no link leads has no link on its way. -/
theorem Plain.child {t : Tree} {base : Location} {entry child : Entry} (h : Plain t base entry)
    (hentered : entered cwd root (entry, t) = some (base ++ entry.1))
    (hchild : child ∈ children ⟨t, cwd⟩ root entry) : Plain t base child := by
  obtain ⟨hkind, es, hresolve⟩ := entered_eq_some_iff.mp hentered
  obtain ⟨-, listing, hlist, e, he, rfl⟩ := listed_of_child hchild
  have hstatus : (FileSystem.mk t cwd).status (root.below entry.1) = .ok (.directory es) :=
    FileSystem.entry_eq_ok_iff.mpr (.inl ⟨_, hresolve⟩)
  obtain ⟨es', hes, rfl⟩ := FileSystem.list_eq_ok_iff.mp hlist
  obtain rfl := Node.directory.inj (Except.ok.inj (hstatus.symm.trans hes))
  intro hdirectory front hne hprefix
  obtain rfl | hfront := List.prefix_concat_iff.mp hprefix
  -- the last step leads to the entry that was listed
  · obtain ⟨node, hfind, hnode⟩ := Entries.mem_kinds.mp he
    have hthere : t.node? (base ++ entry.1 ++ [e.1]) = some node := by
      rw [Tree.node?_concat (FileSystem.node?_of_resolve hresolve), hfind]
    rw [← List.append_assoc]
    refine Tree.target?_eq_none_of_directory ?_
    rw [Tree.kind?, hthere, Option.map_some, hnode]
    exact congrArg some hdirectory
  · exact h hkind front hne hfront

namespace Tour

variable {pending left : List Entry} {visits : List (Entry × Tree)} {t : Tree} {base : Location}

/-- While directories can only vanish, a walk enters below its root what stands there below the
place of the root. -/
theorem entered_places (h : Tour cwd root pending visits left) (hroot : root.bytes ≠ [])
    (hbase : ∀ t', t.Recedes t' → ∀ loc es,
      (FileSystem.mk t' cwd).resolve .follow root = .ok (.entry loc (.directory es)) → loc = base)
    (hplain : ∀ e ∈ pending, Plain t base e) (htrees : ∀ v ∈ visits, t.Recedes v.2)
    (hmoments : visits.Pairwise fun v v' => v.2.Recedes v'.2) :
    ∀ v ∈ visits, ∀ loc, entered cwd root v = some loc → loc = base ++ v.1.1 := by
  -- what is known of pending entries is known in the tree of the last visit
  induction h generalizing t with
  | stay => exact nofun
  | @visit entry rest left now visits h ih =>
    obtain ⟨hnow, -⟩ := List.forall_mem_cons.mp htrees
    obtain ⟨hlater, hmoments⟩ := List.pairwise_cons.mp hmoments
    obtain ⟨hentry, hrest⟩ := List.forall_mem_cons.mp hplain
    have hhere (loc : Location) (hloc : entered cwd root (entry, now) = some loc) :
        loc = base ++ entry.1 := by
      obtain ⟨hkind, es, hresolve⟩ := entered_eq_some_iff.mp hloc
      exact FileSystem.resolve_below_of_plain hroot (hbase now hnow)
        (hentry.recedes hnow hkind) hresolve
    have hnext : ∀ e ∈ children ⟨now, cwd⟩ root entry ++ rest, Plain now base e := by
      refine List.forall_mem_append.mpr ⟨fun child hchild => ?_, fun e he => ?_⟩
      · cases hloc : entered cwd root (entry, now) with
        | none =>
          rw [children_of_not_entered hloc] at hchild
          cases hchild
        | some loc => exact (hentry.recedes hnow).child (hhere loc hloc ▸ hloc) hchild
      · exact (hrest e he).recedes hnow
    exact List.forall_mem_cons.mpr
      ⟨hhere, ih (fun t' ht' => hbase t' (hnow.trans ht')) hnext hlater hmoments⟩

/-- While directories can only vanish, a walk from a root enters no directory twice. -/
theorem entered_once {kind : Kind} (h : Tour cwd root [([], kind)] visits left)
    (hmoments : visits.Pairwise fun v v' => v.2.Recedes v'.2) :
    (visits.filterMap (entered cwd root)).Nodup := by
  have hplaces := h.pairwise_visits (List.pairwise_singleton ..)
  cases h with
  | stay => exact .nil
  | @visit _ _ _ now later h =>
    cases hloc : entered cwd root (([], kind), now) with
    | none =>
      -- nothing is below a root that is not entered
      rw [children_of_not_entered hloc] at h
      cases h
      rw [List.filterMap_cons_none hloc]
      exact .nil
    | some base =>
      obtain ⟨hkind, es, hresolve⟩ := entered_eq_some_iff.mp hloc
      have hroot : root.bytes ≠ [] :=
        FileSystem.bytes_ne_nil_of_entry (FileSystem.entry_eq_ok_iff.mpr (.inl ⟨_, hresolve⟩))
      have hbelow := (Tour.visit h).entered_places hroot
        (fun t' ht' _ _ hresolve' => FileSystem.resolve_recedes ht' hresolve hresolve')
        (List.forall_mem_singleton.mpr fun _ front hne hprefix =>
          absurd (List.prefix_nil.mp hprefix) hne)
        (List.forall_mem_cons.mpr ⟨.refl now, (List.pairwise_cons.mp hmoments).1⟩) hmoments
      refine List.pairwise_filterMap.mpr ((List.pairwise_map.mp hplaces).imp_of_mem ?_)
      intro v v' hv hv' hbefore loc hloc loc' hloc' heq
      rw [hbelow v hv loc hloc, hbelow v' hv' loc' hloc'] at heq
      rw [List.append_cancel_left heq] at hbefore
      exact Location.Before.irrefl _ hbefore

/-- What a walk enters was there when it began. -/
theorem entered_there (htrees : ∀ v ∈ visits, t.Recedes v.2) {loc : Location}
    (hloc : loc ∈ visits.filterMap (entered cwd root)) : t.kind? loc = some .directory := by
  obtain ⟨⟨entry, now⟩, hv, hentered⟩ := List.mem_filterMap.mp hloc
  obtain ⟨-, es, hresolve⟩ := entered_eq_some_iff.mp hentered
  have hnow := Tree.kind?_eq_directory_iff.mpr ⟨es, FileSystem.node?_of_resolve hresolve⟩
  exact (htrees _ hv).directories loc hnow

/-- A walk enters at most all the directories that were there when it began. -/
theorem entered_length_le {kind : Kind} (h : Tour cwd root [([], kind)] visits left)
    (hmoments : visits.Pairwise fun v v' => v.2.Recedes v'.2)
    (htrees : ∀ v ∈ visits, t.Recedes v.2) :
    (visits.filterMap (entered cwd root)).length ≤ t.finite_directories.toFinset.card := by
  rw [← List.toFinset_card_of_nodup (h.entered_once hmoments)]
  refine Finset.card_le_card fun loc hloc => ?_
  rw [Set.Finite.mem_toFinset]
  exact entered_there htrees (List.mem_toFinset.mp hloc)

/-- A walk that goes on for as long as something is pending comes to its end. Its visits use up the
directories that were there at first, and between two of these what is pending. -/
theorem ends {kind : Kind} {trees : Nat → Tree} {pending : Nat → List Entry}
    (htrees : ∀ n, (trees n).Recedes (trees (n + 1)))
    (hnext : ∀ n entry rest, pending n = entry :: rest →
      pending (n + 1) = children ⟨trees n, cwd⟩ root entry ++ rest)
    (n : Nat) (visits : List (Entry × Tree)) (h : Tour cwd root [([], kind)] visits (pending n))
    (hmoments : visits.Pairwise fun v v' => v.2.Recedes v'.2)
    (hfirst : ∀ v ∈ visits, t.Recedes v.2) (hlast : ∀ v ∈ visits, v.2.Recedes (trees n))
    (hnow : t.Recedes (trees n)) : ∃ m, pending m = [] := by
  cases hpending : pending n with
  | nil => exact ⟨n, hpending⟩
  | cons entry rest =>
    have htour : Tour cwd root [([], kind)] (visits ++ [(entry, trees n)]) (pending (n + 1)) := by
      rw [hnext n entry rest hpending]
      exact (hpending ▸ h).concat (trees n)
    have hmoments' : (visits ++ [(entry, trees n)]).Pairwise fun v v' => v.2.Recedes v'.2 :=
      List.pairwise_append.mpr ⟨hmoments, List.pairwise_singleton .., fun v hv _ hlater =>
        List.mem_singleton.mp hlater ▸ hlast v hv⟩
    have hfirst' : ∀ v ∈ visits ++ [(entry, trees n)], t.Recedes v.2 :=
      List.forall_mem_append.mpr ⟨hfirst, List.forall_mem_singleton.mpr hnow⟩
    have hlast' : ∀ v ∈ visits ++ [(entry, trees n)], v.2.Recedes (trees (n + 1)) :=
      List.forall_mem_append.mpr
        ⟨fun v hv => (hlast v hv).trans (htrees n), List.forall_mem_singleton.mpr (htrees n)⟩
    exact ends htrees hnext (n + 1) _ htour hmoments' hfirst' hlast' (hnow.trans (htrees n))
termination_by
  (t.finite_directories.toFinset.card - (visits.filterMap (entered cwd root)).length,
    (pending n).length)
decreasing_by
  cases hloc : entered cwd root (entry, trees n) with
  -- either one entry less is pending, or one directory more has been entered
  | none =>
    rw [List.filterMap_append, List.filterMap_cons_none hloc, List.filterMap_nil, List.append_nil,
      hnext n entry rest hpending, children_of_not_entered hloc, hpending]
    exact Prod.Lex.right _ (Nat.lt_succ_self rest.length)
  | some loc =>
    have hroom := htour.entered_length_le hmoments' hfirst'
    rw [List.filterMap_append, List.filterMap_cons_some hloc, List.length_append] at hroom ⊢
    exact Prod.Lex.left _ _ (by simp at hroom ⊢; omega)

end Tour

/-- A walk that goes on for ever: before each of its visits, in these trees, this is pending. -/
structure Endless (cwd : Working) (root : Path) (trees : Nat → Tree)
    (pending : Nat → List Entry) : Prop where
  start : ∃ kind, pending 0 = [([], kind)]
  next : ∀ n, ∃ entry rest, pending n = entry :: rest ∧
    pending (n + 1) = children ⟨trees n, cwd⟩ root entry ++ rest

/-- However files come and go between its visits, a walk from a root comes to its end, as long as
directories and links only vanish. -/
theorem not_endless {trees : Nat → Tree} {pending : Nat → List Entry}
    (htrees : ∀ n, (trees n).Recedes (trees (n + 1))) : ¬Endless cwd root trees pending := by
  intro h
  obtain ⟨kind, hstart⟩ := h.start
  have htour : Tour cwd root [([], kind)] [] (pending 0) := hstart ▸ .stay _
  have hnext (n : Nat) (entry : Entry) (rest : List Entry) (hpending : pending n = entry :: rest) :
      pending (n + 1) = children ⟨trees n, cwd⟩ root entry ++ rest := by
    obtain ⟨entry', rest', hpending', hchildren⟩ := h.next n
    cases hpending.symm.trans hpending'
    exact hchildren
  obtain ⟨n, hend⟩ := htour.ends htrees hnext 0 [] .nil nofun nofun (.refl (trees 0))
  obtain ⟨entry, rest, hpending, -⟩ := h.next n
  cases hend.symm.trans hpending

end Walk

end Groom
