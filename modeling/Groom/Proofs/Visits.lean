import Mathlib.Data.List.Flatten
import Groom.Proofs.SteadyWalk
import Groom.Proofs.Tour

/-! The visits of a walk that is consumed lazily. Whatever happens to the tree between two members,
as long as directories and links only vanish, the walk is a tour from its root, and its members are
what its visits find. -/
namespace Groom.Walk

open Groom.Flow (Yields moments)

variable {σ : Type} {s : Setting σ} {root : Path} {selection : Selection}

/-- What is pending when a walk begins. -/
def start (fs : FileSystem) (root : Path) : List Entry :=
  match fs.status root with
  | .ok node => [([], node.kind)]
  | .error _ => []

/-- A tour of a walk, from one world to another: its visits find the members that are found, each in
the tree in which it is found, and they see only trees that the walk sees. -/
structure Toured (s : Setting σ) (root : Path) (selection : Selection) (pending : List Entry)
    (w : World σ) (found : List (Path × World σ)) (last : World σ) (visits : List (Entry × Tree))
    (left : List Entry) : Prop where
  tour : Tour s.cwd root pending visits left
  found_eq : found.map (fun x => (x.1, x.2.tree)) = visits.flatMap fun v =>
    (chosen ⟨v.2, s.cwd⟩ selection (root.below v.1.1)).map (·, v.2)
  recedes : visits.Pairwise fun v v' => v.2.Recedes v'.2
  later : ∀ v ∈ visits, w.tree.Recedes v.2
  seen : ∀ v ∈ visits, v.2 ∈ moments found last

namespace Toured

variable {pending left : List Entry} {visits : List (Entry × Tree)} {w w' last : World σ}
  {found : List (Path × World σ)}

theorem stay (pending : List Entry) (w last : World σ) :
    Toured s root selection pending w [] last [] pending :=
  ⟨.stay pending, rfl, .nil, nofun, nofun⟩

/-- One more visit at the beginning, which finds what is found here. -/
theorem visit {entry : Entry} (here : List (Path × World σ))
    (hhere : here.map (fun x => (x.1, x.2.tree)) =
      (chosen ⟨w.tree, s.cwd⟩ selection (root.below entry.1)).map (·, w.tree))
    (hw : w.tree.Recedes w'.tree) (hseen : w.tree ∈ moments (here ++ found) last)
    (h : Toured s root selection (children ⟨w.tree, s.cwd⟩ root entry ++ pending) w' found last
      visits left) :
    Toured s root selection (entry :: pending) w (here ++ found) last ((entry, w.tree) :: visits)
      left where
  tour := .visit h.tour
  found_eq := by rw [List.map_append, hhere, h.found_eq, List.flatMap_cons]
  recedes := List.pairwise_cons.mpr ⟨fun v hv => hw.trans (h.later v hv), h.recedes⟩
  later := List.forall_mem_cons.mpr ⟨.refl w.tree, fun v hv => hw.trans (h.later v hv)⟩
  seen := by
    refine List.forall_mem_cons.mpr ⟨hseen, fun v hv => ?_⟩
    rw [moments, List.map_append, List.append_assoc]
    exact List.mem_append_right _ (h.seen v hv)

theorem found_sublist (h : Toured s root selection pending w found last visits left) :
    (found.map (·.1)).Sublist ((visits.map (·.1.1)).map root.below) := by
  have hfound := congrArg (List.map (·.1)) h.found_eq
  rw [List.map_map, List.map_flatMap] at hfound
  have hmembers : found.map (·.1) = visits.flatMap fun v =>
      chosen ⟨v.2, s.cwd⟩ selection (root.below v.1.1) := by
    simpa [Function.comp_def] using hfound
  rw [hmembers, List.map_map, List.map_eq_flatMap]
  refine List.Sublist.flatMap_right visits fun v _ => ?_
  unfold chosen
  split
  · exact .refl _
  · exact List.nil_sublist _

end Toured

/-- From this world on, a flow is a tour from what is pending, however files come and go; nothing is
pending at its end. -/
def FollowsFrom (s : Setting σ) (root : Path) (selection : Selection) (w : World σ)
    (flow : Flow (Run σ) Path) (pending : List Entry) : Prop :=
  ∀ found left last, Yields flow w found left last →
    (moments found last).Pairwise Tree.Recedes →
    ∃ visits rest, Toured s root selection pending w found last visits rest ∧
      (left = .done → rest = [])

/-- In whatever world it goes on, a flow is a tour from what is pending. -/
def Follows (s : Setting σ) (root : Path) (selection : Selection) (flow : Flow (Run σ) Path)
    (pending : List Entry) : Prop :=
  flow.Idle ∧ ∀ w, FollowsFrom s root selection w flow pending

variable {pending : List Entry} {rest : Flow (Run σ) Path}

theorem follows_done : Follows s root selection .done [] := by
  refine ⟨trivial, fun w found left last h _ => ?_⟩
  cases h
  exact ⟨[], [], .stay [] w w, fun _ => rfl⟩

theorem followsFrom_ask {ρ : Type} {question : Run σ ρ} {rest : ρ → Flow (Run σ) Path}
    {w : World σ} (hidle : question.Idle)
    (h : ∀ r, question.outcome w = .ok r →
      FollowsFrom s root selection (question.after w) (rest r) pending) :
    FollowsFrom s root selection w (.ask question rest) pending := by
  intro found left last hyields hmoments
  cases hyields with
  | stay => exact ⟨[], pending, .stay pending w w, nofun⟩
  | ask hr hrest =>
    have hsame : (question.after w).tree = w.tree := (hidle.spec w).2.1
    obtain ⟨visits, left', htoured, hleft⟩ := h _ hr found left last hrest hmoments
    exact ⟨visits, left', { htoured with later := hsame ▸ htoured.later }, hleft⟩

/-- What the walk asks is answered by the tree as it is then. -/
theorem followsFrom_look {α : Type} {question : FileSystem → α} {rest : α → Flow (Run σ) Path}
    {w : World σ} (h : ∀ answer, question ⟨w.tree, s.cwd⟩ = answer →
      FollowsFrom s root selection w (rest answer) pending) :
    FollowsFrom s root selection w (.ask (do return question (← Run.files s)) rest) pending :=
  followsFrom_ask (ask_idle s question) fun answer hanswer => h answer (ask_eq_ok_iff.mp hanswer)

theorem follows_skip (path : Path) (cause : IoError)
    (hrest : Follows s root selection rest pending) :
    Follows s root selection (.ask (skip path cause) fun _ => rest) pending :=
  ⟨⟨skip_idle path cause, fun _ => hrest.1⟩,
    fun _ => followsFrom_ask (skip_idle path cause) fun _ _ => hrest.2 _⟩

/-- The entry that is offered is visited, in the tree as it is then. -/
theorem followsFrom_offer {w : World σ} {place : Location} {kind : Kind}
    (hrest : Follows s root selection rest
      (children ⟨w.tree, s.cwd⟩ root (place, kind) ++ pending)) :
    FollowsFrom s root selection w (offer s selection (root.below place) rest)
      ((place, kind) :: pending) := by
  intro found left last hyields hmoments
  cases hyields with
  | stay => exact ⟨[], _, .stay _ w w, fun h => by cases h⟩
  | @ask _ _ _ _ _ _ wanted _ hwanted hyields =>
    rw [ask_eq_ok_iff] at hwanted
    have hchosen : chosen ⟨w.tree, s.cwd⟩ selection (root.below place) =
        if wanted then [root.below place] else [] := by rw [chosen, hwanted]
    cases wanted with
    | false =>
      obtain ⟨visits, left', htoured, hleft⟩ := hrest.2 w found left last hyields hmoments
      have hseen : w.tree ∈ moments found last := hyields.start_mem_moments hrest.1
      refine ⟨_, left', htoured.visit [] ?_ (.refl w.tree) hseen, hleft⟩
      rw [hchosen]
      rfl
    | true =>
      cases hyields with
      | stay => exact ⟨[], _, .stay _ w w, fun h => by cases h⟩
      | @next _ _ _ _ w' _ found' hyields =>
        obtain ⟨hlater, hmoments⟩ := List.pairwise_cons.mp hmoments
        obtain ⟨visits, left', htoured, hleft⟩ := hrest.2 w' found' left last hyields hmoments
        have hnow : w.tree.Recedes w'.tree := hlater _ (hyields.start_mem_moments hrest.1)
        refine ⟨_, left', htoured.visit [(root.below place, w)] ?_ hnow ?_, hleft⟩
        · rw [hchosen]
          rfl
        · exact List.mem_cons_self

/-- Where nothing is listed below an entry, the walk goes on with what was pending before. -/
theorem followsFrom_last {w : World σ} {place : Location} {kind : Kind}
    (hnone : children ⟨w.tree, s.cwd⟩ root (place, kind) = [])
    (hrest : Follows s root selection rest pending) :
    FollowsFrom s root selection w (offer s selection (root.below place) rest)
      ((place, kind) :: pending) := by
  refine followsFrom_offer ?_
  rw [hnone]
  exact hrest

theorem follows_listing {depth : Nat} (place : Location)
    (hvisit : ∀ (child : Location) (kind : Kind) (rest : Flow (Run σ) Path)
      (pending : List Entry), child.length = place.length + 1 →
      Follows s root selection rest pending →
      Follows s root selection (visit s selection depth (root.below child) kind rest)
        ((child, kind) :: pending))
    (listing : List (Name × Kind)) (hrest : Follows s root selection rest pending) :
    Follows s root selection (listing.foldr (fun entry rest =>
        visit s selection depth ((root.below place).child entry.1) entry.2 rest) rest)
      ((listing.map fun e => (place ++ [e.1], e.2)) ++ pending) := by
  induction listing with
  | nil => exact hrest
  | cons e listing ih =>
    rw [List.foldr_cons, ← Path.below_concat]
    exact hvisit (place ++ [e.1]) e.2 _ _ (by simp) ih

theorem children_of_leaf {fs : FileSystem} {entry : Entry} (h : entry.2 ≠ .directory) :
    children fs root entry = [] :=
  List.eq_nil_iff_forall_not_mem.mpr fun _ hchild => h (listed_of_child hchild).1

theorem children_of_listed {fs : FileSystem} {place : Location} {listing : List (Name × Kind)}
    (h : fs.list (root.below place) = .ok listing) :
    children fs root (place, .directory) = listing.map fun e => (place ++ [e.1], e.2) := by
  rw [children, h]

theorem children_of_unlisted {fs : FileSystem} {entry : Entry} {cause : IoError}
    (h : fs.list (root.below entry.1) = .error cause) : children fs root entry = [] := by
  refine List.eq_nil_iff_forall_not_mem.mpr fun _ hchild => ?_
  obtain ⟨-, listing, hlist, -⟩ := listed_of_child hchild
  cases hlist.symm.trans h

/-- Every level makes a path longer, so at the greatest depth nothing can be listed. -/
theorem children_of_deep {fs : FileSystem} {entry : Entry} (hroot : root.bytes ≠ [])
    (hdeep : Resolution.maxPath ≤ entry.1.length) : children fs root entry = [] := by
  refine List.eq_nil_iff_forall_not_mem.mpr fun _ hchild => ?_
  obtain ⟨-, listing, hlist, -⟩ := listed_of_child hchild
  obtain ⟨es, hes, -⟩ := FileSystem.list_eq_ok_iff.mp hlist
  have hshort := FileSystem.length_le_of_entry hes
  have hlong := root.length_below entry.1
  have hnonempty := List.length_pos_iff.mpr hroot
  omega

theorem follows_visit (hroot : root.bytes ≠ []) (depth : Nat) (place : Location) (kind : Kind)
    (hdepth : Resolution.maxPath ≤ depth + place.length)
    (hrest : Follows s root selection rest pending) :
    Follows s root selection (visit s selection depth (root.below place) kind rest)
      ((place, kind) :: pending) := by
  refine ⟨visit_idle s selection depth _ kind hrest.1, fun w => ?_⟩
  induction depth generalizing place kind rest pending w with
  | zero =>
    -- the tour has no bound on its depth, but it could not list anything here either
    have hdeep : children ⟨w.tree, s.cwd⟩ root (place, kind) = [] :=
      children_of_deep hroot (by simpa using hdepth)
    cases kind with
    | directory => exact followsFrom_last hdeep (follows_skip _ .nameTooLong hrest)
    | file | link | device => exact followsFrom_last hdeep hrest
  | succ depth ih =>
    cases kind with
    | file | link | device => exact followsFrom_last (children_of_leaf nofun) hrest
    | directory =>
      refine followsFrom_look fun answer hanswer => ?_
      cases answer with
      | error cause =>
        exact followsFrom_last (children_of_unlisted hanswer) (follows_skip _ cause hrest)
      | ok listing =>
        -- the listing is asked for and the directory offered in one tree, so this is one visit
        refine followsFrom_offer ?_
        rw [children_of_listed hanswer]
        refine follows_listing place (fun child kind rest pending hchild hrest => ?_) listing hrest
        exact ⟨visit_idle s selection depth _ kind hrest.1, ih child kind (by omega) hrest⟩

/-- A walk is a tour from its root. -/
theorem followsFrom_targets (s : Setting σ) (root : Path) (selection : Selection) (w : World σ) :
    FollowsFrom s root selection w (targets s root selection) (start ⟨w.tree, s.cwd⟩ root) := by
  let fs := FileSystem.mk w.tree s.cwd
  have skipped {cause : IoError} (hstatus : fs.status root = .error cause) (cause' : IoError) :
      FollowsFrom s root selection w (.ask (skip root cause') fun _ => .done) (start fs root) := by
    have hstart : start fs root = [] := by rw [start, hstatus]
    rw [hstart]
    exact (follows_skip root cause' follows_done).2 w
  have visited {node : Node} (hstatus : fs.status root = .ok node) :
      FollowsFrom s root selection w (visit s selection Resolution.maxPath root node.kind .done)
        (start fs root) := by
    have hstart : start fs root = [([], node.kind)] := by rw [start, hstatus]
    have hroot : root.bytes ≠ [] := FileSystem.bytes_ne_nil_of_entry hstatus
    rw [hstart]
    exact (follows_visit hroot Resolution.maxPath [] node.kind (Nat.le_refl _) follows_done).2 w
  refine followsFrom_look fun named hnamed => ?_
  -- what stands at the root is what the root leads to, unless it is a link
  have hsame (hlink : ∀ path, named ≠ .ok (.link path)) : fs.status root = named := by
    obtain heq | ⟨path, h⟩ := fs.linkStatus_eq_or_link root
    · exact heq.symm.trans hnamed
    · exact absurd (hnamed.symm.trans h) (hlink path)
  cases named with
  | error cause => exact skipped (hsame nofun) cause
  | ok node =>
    cases node with
    | file | directory | device => exact visited (hsame nofun)
    | link path =>
      refine followsFrom_look fun answer hanswer => ?_
      cases answer with
      | error cause => exact skipped hanswer cause
      | ok node => exact visited hanswer

namespace Toured

variable {fs : FileSystem} {w last : World σ} {found : List (Path × World σ)} {left : List Entry}
  {visits : List (Entry × Tree)}

theorem start_eq (fs : FileSystem) (root : Path) :
    start fs root = [] ∨ ∃ kind, start fs root = [([], kind)] := by
  unfold start
  split
  · exact .inr ⟨_, rfl⟩
  · exact .inl rfl

/-- A walk enters no directory twice. -/
theorem entered_once (h : Toured s root selection (start fs root) w found last visits left) :
    (visits.filterMap (entered s.cwd root)).Nodup := by
  have htour := h.tour
  obtain hstart | ⟨kind, hstart⟩ := start_eq fs root <;> rw [hstart] at htour
  · cases htour
    exact .nil
  · exact htour.entered_once h.recedes

/-- A walk visits places in their order, and so none of them twice. -/
theorem visits_sorted (h : Toured s root selection (start fs root) w found last visits left) :
    (visits.map (·.1.1)).Pairwise Location.Before := by
  refine h.tour.pairwise_visits ?_
  obtain hstart | ⟨kind, hstart⟩ := start_eq fs root <;> rw [hstart]
  · exact .nil
  · exact List.pairwise_singleton ..

/-- The members of a walk stand at places that it visits, each of them once. -/
theorem found_once (h : Toured s root selection (start fs root) w found last visits left) :
    (found.map (·.1)).Nodup := by
  have hplaces : ((visits.map (·.1.1)).map root.below).Nodup := nodup_of_places rfl h.visits_sorted
  exact hplaces.sublist h.found_sublist

/-- A walk finds no more than is listed in the directories that it enters, and the root. -/
theorem found_length_le (h : Toured s root selection (start fs root) w found last visits left) :
    found.length ≤ 1 + (visits.flatMap fun v => children ⟨v.2, s.cwd⟩ root v.1).length := by
  have hvisits := h.tour.length_visits
  have hstart : (start fs root).length ≤ 1 := by
    obtain hstart | ⟨kind, hstart⟩ := start_eq fs root <;> rw [hstart] <;> simp
  have hfound := h.found_sublist.length_le
  simp only [List.length_map] at hfound
  omega

end Toured

end Groom.Walk
