import Groom.Proofs.Layout

/-! Revisions of a tree. A file gets content that depends on the content that it had; what stands
anywhere else stays as it was. So revisions of different files can be made in any order. -/
namespace Groom

namespace Entries

theorem insert_insert_self (es : Entries) (name : Name) (node node' : Node) :
    insert (insert es name node) name node' = insert es name node' := by
  induction es with
  | nil => simp [insert]
  | cons e rest ih =>
    obtain ⟨n, old⟩ := e
    by_cases hn : n = name <;> simp [insert, hn, ih]

theorem insert_of_find? {es : Entries} {name : Name} {node : Node}
    (h : find? es name = some node) : insert es name node = es := by
  induction es with
  | nil => cases h
  | cons e rest ih =>
    obtain ⟨n, old⟩ := e
    by_cases hn : n = name
    · simp only [find?, hn, if_true, Option.some.injEq] at h
      simp [insert, hn, h]
    · simp only [find?, hn, if_false] at h
      simp [insert, hn, ih h]

/-- Entries that are there can be replaced in either order. -/
theorem insert_insert_comm (es : Entries) {name name' : Name} (node node' : Node)
    (hne : name ≠ name') (hthere : find? es name ≠ none) :
    insert (insert es name node) name' node' = insert (insert es name' node') name node := by
  induction es with
  | nil => exact absurd rfl hthere
  | cons e rest ih =>
    obtain ⟨n, old⟩ := e
    by_cases hn : n = name
    · subst hn
      simp [insert, hne]
    · by_cases hn' : n = name'
      · subst hn'
        simp [insert, hn]
      · have hrest : find? rest name ≠ none := by simpa [find?, hn] using hthere
        simp [insert, hn, hn', ih hrest]

end Entries

namespace Node

/-- Changes the content of the file at a place, if there is one. -/
def revise (change : Bytes → Bytes) : Node → Location → Node
  | .file content executable, [] => .file (change content) executable
  | .directory es, name :: rest =>
    match Entries.find? es name with
    | some child => .directory (Entries.insert es name (child.revise change rest))
    | none => .directory es
  | node, _ => node

variable {node : Node} {loc loc' : Location} {change change' : Bytes → Bytes}

theorem revise_cons_of_find? {es : Entries} {name : Name} {child : Node}
    (hfind : Entries.find? es name = some child) (change : Bytes → Bytes) (rest : Location) :
    (directory es).revise change (name :: rest) =
      directory (Entries.insert es name (child.revise change rest)) := by
  simp [revise, hfind]

theorem revise_cons_of_missing {es : Entries} {name : Name}
    (hfind : Entries.find? es name = none) (change : Bytes → Bytes) (rest : Location) :
    (directory es).revise change (name :: rest) = directory es := by
  simp [revise, hfind]

/-- A file that gets its own content stays what it is. -/
theorem revise_id (node : Node) (loc : Location) : node.revise id loc = node := by
  induction loc generalizing node with
  | nil => cases node <;> rfl
  | cons name rest ih =>
    cases node with
    | file | link | device => rfl
    | directory es =>
      cases hfind : Entries.find? es name with
      | none => exact revise_cons_of_missing hfind id rest
      | some child => rw [revise_cons_of_find? hfind, ih, Entries.insert_of_find? hfind]

/-- Two revisions at one place are one. -/
theorem revise_revise (node : Node) (change change' : Bytes → Bytes) (loc : Location) :
    (node.revise change loc).revise change' loc = node.revise (change' ∘ change) loc := by
  induction loc generalizing node with
  | nil => cases node <;> rfl
  | cons name rest ih =>
    cases node with
    | file | link | device => rfl
    | directory es =>
      cases hfind : Entries.find? es name with
      | none => simp only [revise_cons_of_missing hfind]
      | some child =>
        rw [revise_cons_of_find? hfind, revise_cons_of_find? hfind,
          revise_cons_of_find? (Entries.find?_insert_self _ _ _), Entries.insert_insert_self, ih]

/-- Revisions at different places can be made in either order. -/
theorem revise_comm (node : Node) (change change' : Bytes → Bytes) (hne : loc ≠ loc') :
    (node.revise change loc).revise change' loc' =
      (node.revise change' loc').revise change loc := by
  induction loc generalizing node loc' with
  | nil =>
    obtain ⟨name, rest, rfl⟩ := List.exists_cons_of_ne_nil (Ne.symm hne)
    cases node with
    | file | link | device => rfl
    | directory es => cases hfind : Entries.find? es name <;> simp [revise, hfind]
  | cons name rest ih =>
    cases node with
    | file | link | device => cases loc' <;> rfl
    | directory es =>
      cases loc' with
      | nil => cases hfind : Entries.find? es name <;> simp [revise, hfind]
      | cons name' rest' =>
        cases hfind : Entries.find? es name with
        | none =>
          -- nothing stands at the first place, and nothing is put there
          rw [revise_cons_of_missing hfind]
          cases hfind' : Entries.find? es name' with
          | none => rw [revise_cons_of_missing hfind', revise_cons_of_missing hfind]
          | some child' =>
            have hnames : name ≠ name' := by
              rintro rfl
              cases hfind.symm.trans hfind'
            rw [revise_cons_of_find? hfind']
            refine (revise_cons_of_missing ?_ change rest).symm
            rw [Entries.find?_insert_of_ne _ _ hnames, hfind]
        | some child =>
          rw [revise_cons_of_find? hfind]
          by_cases hnames : name' = name
          · subst hnames
            have hrest : rest ≠ rest' := fun h => hne (congrArg (name' :: ·) h)
            rw [revise_cons_of_find? (Entries.find?_insert_self _ _ _), revise_cons_of_find? hfind,
              revise_cons_of_find? (Entries.find?_insert_self _ _ _), Entries.insert_insert_self,
              Entries.insert_insert_self, ih child hrest]
          · cases hfind' : Entries.find? es name' with
            | none =>
              rw [revise_cons_of_missing hfind', revise_cons_of_find? hfind]
              refine revise_cons_of_missing ?_ change' rest'
              rw [Entries.find?_insert_of_ne _ _ hnames, hfind']
            | some child' =>
              have hleft := (Entries.find?_insert_of_ne es (child.revise change rest) hnames).trans
                hfind'
              have hright := (Entries.find?_insert_of_ne es (child'.revise change' rest')
                (Ne.symm hnames)).trans hfind
              rw [revise_cons_of_find? hleft, revise_cons_of_find? hfind',
                revise_cons_of_find? hright, Entries.insert_insert_comm es _ _ (Ne.symm hnames)]
              rw [hfind]
              exact Option.some_ne_none child

/-- A file that gets content which depends on its own is revised. -/
theorem alter_eq_revise {content : Bytes} {executable : Bool}
    (h : node.at? loc = some (.file content executable)) (change : Bytes → Bytes) :
    node.alter (fun _ => some (.file (change content) executable)) loc =
      node.revise change loc := by
  induction loc generalizing node with
  | nil =>
    obtain rfl := Option.some.inj h
    rfl
  | cons name rest ih =>
    cases node with
    | file | link | device => cases h
    | directory es =>
      obtain ⟨child, hfind, hchild⟩ := Option.bind_eq_some_iff.mp h
      rw [alter_cons_of_find? hfind, revise_cons_of_find? hfind, ih hchild]

end Node

namespace Tree

variable {t : Tree} {loc loc' : Location} {content : Bytes} {executable : Bool}

/-- Changes the content of the file at a place, if there is one. -/
def revise (t : Tree) (loc : Location) (change : Bytes → Bytes) : Tree :=
  match t.root.revise change loc with
  | .directory entries => { t with entries }
  | _ => t

theorem root_revise (t : Tree) (loc : Location) (change : Bytes → Bytes) :
    (t.revise loc change).root = t.root.revise change loc := by
  unfold revise root
  cases loc with
  | nil => rfl
  | cons name rest =>
    cases hfind : Entries.find? t.entries name with
    | none => rw [Node.revise_cons_of_missing hfind]
    | some child => rw [Node.revise_cons_of_find? hfind]

theorem removals_revise (t : Tree) (loc : Location) (change : Bytes → Bytes) :
    (t.revise loc change).removals = t.removals := by
  unfold revise
  split <;> rfl

theorem ext_root {t t' : Tree} (hroot : t.root = t'.root) (hremovals : t.removals = t'.removals) :
    t = t' := by
  cases t
  cases t'
  obtain rfl := Node.directory.inj hroot
  obtain rfl : _ = _ := hremovals
  rfl

theorem revise_id (t : Tree) (loc : Location) : t.revise loc id = t := by
  apply ext_root
  · rw [root_revise, Node.revise_id]
  · exact removals_revise t loc id

theorem revise_revise (t : Tree) (loc : Location) (change change' : Bytes → Bytes) :
    (t.revise loc change).revise loc change' = t.revise loc (change' ∘ change) := by
  apply ext_root
  · rw [root_revise, root_revise, root_revise, Node.revise_revise]
  · simp only [removals_revise]

theorem revise_comm (t : Tree) (change change' : Bytes → Bytes) (hne : loc ≠ loc') :
    (t.revise loc change).revise loc' change' = (t.revise loc' change').revise loc change := by
  apply ext_root
  · simp only [root_revise, Node.revise_comm _ change change' hne]
  · simp only [removals_revise]

/-- To give a file content that depends on its own is a revision. -/
theorem put_eq_revise (h : t.node? loc = some (.file content executable))
    (change : Bytes → Bytes) :
    t.put loc (.file (change content) executable) = t.revise loc change := by
  have hroot : t.root.alter (fun _ => some (.file (change content) executable)) loc =
      t.root.revise change loc := Node.alter_eq_revise h change
  exact congrArg (fun root : Node => match root with
    | .directory entries => { t with entries }
    | _ => t) hroot

theorem exists_file_of_content? (h : t.content? loc = some content) :
    ∃ executable, t.node? loc = some (.file content executable) := by
  obtain ⟨node, hnode, hcontent⟩ := Option.bind_eq_some_iff.mp h
  cases node with
  | file bytes executable =>
    obtain rfl := Option.some.inj hcontent
    exact ⟨executable, hnode⟩
  | link | directory | device => cases hcontent

theorem SameLayout.revise (h : t.content? loc = some content) (change : Bytes → Bytes) :
    t.SameLayout (t.revise loc change) := by
  obtain ⟨executable, hnode⟩ := exists_file_of_content? h
  rw [← put_eq_revise hnode]
  exact .put_file hnode

theorem content?_revise_self (h : t.content? loc = some content) (change : Bytes → Bytes) :
    (t.revise loc change).content? loc = some (change content) := by
  obtain ⟨executable, hnode⟩ := exists_file_of_content? h
  rw [← put_eq_revise hnode]
  exact content?_put_self hnode

theorem content?_revise_of_ne (h : t.content? loc = some content) (change : Bytes → Bytes)
    (hne : loc' ≠ loc) : (t.revise loc change).content? loc' = t.content? loc' := by
  obtain ⟨executable, hnode⟩ := exists_file_of_content? h
  rw [← put_eq_revise hnode]
  exact content?_put_file hnode hne

/-- Changes the contents of files, one after another. -/
def reviseAll (t : Tree) (edits : List (Location × (Bytes → Bytes))) : Tree :=
  edits.foldl (fun t edit => t.revise edit.1 edit.2) t

variable {edits edits' : List (Location × (Bytes → Bytes))}

theorem reviseAll_append (t : Tree) (edits edits' : List (Location × (Bytes → Bytes))) :
    t.reviseAll (edits ++ edits') = (t.reviseAll edits).reviseAll edits' :=
  List.foldl_append

/-- The order of changes makes no difference if no file is changed in two ways. -/
theorem reviseAll_perm (h : edits.Perm edits')
    (hone : ∀ x ∈ edits, ∀ y ∈ edits, x.1 = y.1 → x = y) (t : Tree) :
    t.reviseAll edits = t.reviseAll edits' := by
  refine h.foldl_eq' (fun x hx y hy t => ?_) t
  by_cases hloc : x.1 = y.1
  · rw [hone x hx y hy hloc]
  · exact revise_comm t x.2 y.2 hloc

/-- The places at which something is changed hold files. -/
def Holds (t : Tree) (edits : List (Location × (Bytes → Bytes))) : Prop :=
  ∀ edit ∈ edits, ∃ content, t.content? edit.1 = some content

theorem Holds.revise (h : t.Holds edits) (hcontent : t.content? loc = some content)
    (change : Bytes → Bytes) : (t.revise loc change).Holds edits := by
  intro edit hedit
  by_cases hloc : edit.1 = loc
  · rw [hloc]
    exact ⟨_, content?_revise_self hcontent change⟩
  · rw [content?_revise_of_ne hcontent change hloc]
    exact h edit hedit

theorem SameLayout.reviseAll (h : t.Holds edits) : t.SameLayout (t.reviseAll edits) := by
  induction edits generalizing t with
  | nil => exact .refl t
  | cons edit rest ih =>
    obtain ⟨⟨content, hcontent⟩, hrest⟩ := List.forall_mem_cons.mp h
    have hlater : (t.revise edit.1 edit.2).Holds rest := Holds.revise hrest hcontent edit.2
    exact (SameLayout.revise hcontent edit.2).trans (ih hlater)

theorem content?_reviseAll_of_others (h : t.Holds edits) (hne : ∀ edit ∈ edits, loc ≠ edit.1) :
    (t.reviseAll edits).content? loc = t.content? loc := by
  induction edits generalizing t with
  | nil => rfl
  | cons edit rest ih =>
    obtain ⟨⟨content, hcontent⟩, hrest⟩ := List.forall_mem_cons.mp h
    obtain ⟨hfirst, hothers⟩ := List.forall_mem_cons.mp hne
    have hlater : (t.revise edit.1 edit.2).Holds rest := Holds.revise hrest hcontent edit.2
    calc ((t.revise edit.1 edit.2).reviseAll rest).content? loc
        = (t.revise edit.1 edit.2).content? loc := ih hlater hothers
      _ = t.content? loc := content?_revise_of_ne hcontent edit.2 hfirst

/-- A file that is changed once has the changed content afterwards. -/
theorem content?_reviseAll_of_mem (h : t.Holds edits)
    (hdistinct : edits.Pairwise fun x y => x.1 ≠ y.1) {edit : Location × (Bytes → Bytes)}
    (hedit : edit ∈ edits) :
    (t.reviseAll edits).content? edit.1 = (t.content? edit.1).map edit.2 := by
  induction edits generalizing t with
  | nil => cases hedit
  | cons first rest ih =>
    obtain ⟨⟨content, hcontent⟩, hrest⟩ := List.forall_mem_cons.mp h
    obtain ⟨hfirst, hpairs⟩ := List.pairwise_cons.mp hdistinct
    have hlater : (t.revise first.1 first.2).Holds rest := Holds.revise hrest hcontent first.2
    show ((t.revise first.1 first.2).reviseAll rest).content? edit.1 = _
    obtain rfl | hedit := List.mem_cons.mp hedit
    · rw [content?_reviseAll_of_others hlater hfirst, content?_revise_self hcontent, hcontent]
      rfl
    · rw [ih hlater hpairs hedit, content?_revise_of_ne hcontent]
      exact (hfirst edit hedit).symm

end Tree
end Groom
