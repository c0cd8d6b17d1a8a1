import Groom.Flow
import Groom.Proofs.Run

/-! How flows are consumed. A flow whose questions only look around is idle, and what a consumer
keeps true of each member it keeps true of the whole. `Yields` follows a flow while anything may
happen to the world between two members; `Foreseen` says that the members are known beforehand, for
as long as the world keeps a property. -/
namespace Groom.Flow

open Run (Ends)

variable {σ α β γ : Type}

/-- Acting on members as they are found, and then consuming the results, is consuming the members.
-/
theorem foldM_mapM {m : Type → Type} [Monad m] [LawfulMonad m] (f : γ → β → m γ) (g : α → m β)
    (flow : Flow m α) (c : γ) :
    (flow.mapM g).foldM f c = flow.foldM (fun c a => g a >>= f c) c := by
  induction flow generalizing c with
  | done => rfl
  | next a rest ih => simp only [mapM, foldM, bind_assoc, ih]
  | ask question rest ih => simp only [mapM, foldM, ih]

def Idle : Flow (Run σ) α → Prop
  | .done => True
  | .next _ rest => rest.Idle
  | .ask question rest => question.Idle ∧ ∀ r, (rest r).Idle

theorem idle_ofList (as : List α) : (ofList as : Flow (Run σ) α).Idle := by
  induction as with
  | nil => trivial
  | cons a rest ih => exact ih

/-- The members that a consumer comes to. -/
def trail (f : β → α → Run σ β) : β → Flow (Run σ) α → World σ → List (α × World σ)
  | _, .done, _ => []
  | b, .next a rest, w =>
    (a, w) :: match (f b a).outcome w with
      | .ok b' => trail f b' rest ((f b a).after w)
      | .error _ => []
  | b, .ask question rest, w =>
    match question.outcome w with
    | .ok r => trail f b (rest r) (question.after w)
    | .error _ => []

/-- What a consumer keeps true of each member of an idle flow to which it comes, it keeps true of
the whole flow: `inv` while it goes on, and `failed` once it has stopped. Both may speak of all
deeds so far. -/
theorem Idle.foldM_meets_trail {flow : Flow (Run σ) α} (hflow : flow.Idle) (f : β → α → Run σ β)
    (admitted : α → World σ → Prop) (inv : β → List Event → World σ → Prop)
    (failed : Error → List Event → World σ → Prop)
    (hstill : ∀ b ds w w', w.Still w' → inv b ds w → inv b ds w')
    (hstep : ∀ b a ds w, admitted a w → inv b ds w →
      (f b a).Meets w fun ds' r w' => Ends inv failed (ds ++ ds') r w')
    (b : β) (ds : List Event) (w : World σ) (hadmitted : ∀ x ∈ trail f b flow w, admitted x.1 x.2)
    (h : inv b ds w) :
    (flow.foldM f b).Meets w fun ds' r w' => Ends inv failed (ds ++ ds') r w' := by
  -- the deeds so far are carried along, since the consumer may speak of all of them
  induction flow generalizing b ds w with
  | done =>
    refine .pure ?_
    rw [List.append_nil]
    exact h
  | next a rest ih =>
    obtain ⟨hfirst, hlater⟩ := List.forall_mem_cons.mp hadmitted
    refine (hstep b a ds w hfirst h).exactly.bind ?_ ?_
    · intro ds' b' w' hmeets
      obtain ⟨hb, hr, rfl⟩ := hmeets
      rw [hr] at hlater
      refine (ih hflow b' (ds ++ ds') _ hlater hb).mono fun ds'' r w'' hrest => ?_
      rw [← List.append_assoc]
      exact hrest
    · intro ds' e w' hmeets
      exact hmeets.1
  | ask question rest ih =>
    refine (hflow.1 w).exactly.bind ?_ ?_
    · intro ds' r w' hmeets
      obtain ⟨⟨rfl, -, hs⟩, hr, rfl⟩ := hmeets
      rw [trail, hr] at hadmitted
      exact ih r (hflow.2 r) b ds _ hadmitted (hstill b ds w _ hs h)
    · intro ds' e w' hmeets
      obtain ⟨⟨-, ⟨a, ha⟩, -⟩, -, -⟩ := hmeets
      cases ha

theorem Idle.foldM_meets {flow : Flow (Run σ) α} (hflow : flow.Idle) (f : β → α → Run σ β)
    (inv : β → List Event → World σ → Prop) (failed : Error → List Event → World σ → Prop)
    (hstill : ∀ b ds w w', w.Still w' → inv b ds w → inv b ds w')
    (hstep : ∀ b a ds w, inv b ds w →
      (f b a).Meets w fun ds' r w' => Ends inv failed (ds ++ ds') r w')
    (b : β) (ds : List Event) (w : World σ) (h : inv b ds w) :
    (flow.foldM f b).Meets w fun ds' r w' => Ends inv failed (ds ++ ds') r w' :=
  hflow.foldM_meets_trail f (fun _ _ => True) inv failed hstill
    (fun b a ds w _ => hstep b a ds w) b ds w (fun _ _ => trivial) h

theorem Idle.foldM_idle {flow : Flow (Run σ) α} (hflow : flow.Idle) (f : β → α → Run σ β)
    (hf : ∀ b a, (f b a).Idle) (b : β) : (flow.foldM f b).Idle := by
  induction flow generalizing b with
  | done => exact .pure b
  | next a rest ih => exact (hf b a).bind fun b' => ih hflow b'
  | ask question rest ih => exact hflow.1.bind fun r => ih r (hflow.2 r) b

theorem Idle.toList_idle {flow : Flow (Run σ) α} (hflow : flow.Idle) : flow.toList.Idle :=
  hflow.foldM_idle _ (fun found a => .pure (found ++ [a])) []

/-- Members are found one by one, each with the world in which it is found, and a rest of the flow
is left. The world may become any other between two members. -/
inductive Yields : Flow (Run σ) α → World σ → List (α × World σ) → Flow (Run σ) α → World σ → Prop
  | stay (flow : Flow (Run σ) α) (w : World σ) : Yields flow w [] flow w
  | next {a : α} {rest left : Flow (Run σ) α} {w w' w'' : World σ} {found : List (α × World σ)}
      (h : Yields rest w' found left w'') : Yields (.next a rest) w ((a, w) :: found) left w''
  | ask {ρ : Type} {question : Run σ ρ} {rest : ρ → Flow (Run σ) α} {left : Flow (Run σ) α}
      {w w' : World σ} {r : ρ} {found : List (α × World σ)} (hr : question.outcome w = .ok r)
      (h : Yields (rest r) (question.after w) found left w') :
      Yields (.ask question rest) w found left w'

/-- The trees that a walk sees from its first request to its last: those in which it finds its
members, and the last one. -/
def moments (found : List (α × World σ)) (w : World σ) : List Tree :=
  found.map (·.2.tree) ++ [w.tree]

theorem last_mem_moments (found : List (α × World σ)) (w : World σ) : w.tree ∈ moments found w :=
  List.mem_append_right _ (List.mem_singleton.mpr rfl)

/-- The tree in which an idle flow starts is seen when its next member is found, or at the end. -/
theorem Yields.start_mem_moments {flow left : Flow (Run σ) α} {w w' : World σ}
    {found : List (α × World σ)} (h : Yields flow w found left w') (hflow : flow.Idle) :
    w.tree ∈ moments found w' := by
  induction h with
  | stay flow w => exact last_mem_moments [] w
  | next h ih => exact List.mem_cons_self
  | @ask ρ question rest left w w' r found hr h ih =>
    have hs : w.Still (question.after w) := (hflow.1.spec w).2
    rw [← hs.1]
    exact ih (hflow.2 r)

/-- Whatever happens to the world between two members, every member is found as `good` wants it:
after what was known before it, in the world in which it is found, and with what is known from then
on. -/
def Finds (good : γ → α → World σ → γ → Prop) : γ → Flow (Run σ) α → World σ → Prop
  | _, .done, _ => True
  | c, .next a rest, w => ∃ c', good c a w c' ∧ ∀ w', Finds good c' rest w'
  | c, .ask question rest, w =>
    ∀ r, question.outcome w = .ok r → Finds good c (rest r) (question.after w)

/-- Every member to which a consumer comes was found as `good` wants it. -/
theorem Finds.of_mem_trail {good : γ → α → World σ → γ → Prop}
    {f : β → α → Run σ β} {c : γ} {b : β} {flow : Flow (Run σ) α} {w : World σ}
    (h : Finds good c flow w) {x : α × World σ} (hx : x ∈ trail f b flow w) :
    ∃ c c', good c x.1 x.2 c' := by
  induction flow generalizing c b w with
  | done => cases hx
  | next a rest ih =>
    obtain ⟨c', hgood, hrest⟩ := h
    rw [trail] at hx
    obtain rfl | hx := List.mem_cons.mp hx
    · exact ⟨c, c', hgood⟩
    · split at hx
      · exact ih (hrest _) hx
      · cases hx
  | ask question rest ih =>
    rw [trail] at hx
    split at hx
    · exact ih _ (h _ ‹_›) hx
    · cases hx

/-- A flow comes to a member, as long as the trees that it sees are as wanted. -/
def Reaches (wanted : Tree → Prop) (a : α) : Flow (Run σ) α → World σ → Prop
  | .done, _ => False
  | .next b rest, _ => b = a ∨ ∀ w', wanted w'.tree → Reaches wanted a rest w'
  | .ask question rest, w =>
    ∀ r, question.outcome w = .ok r → Reaches wanted a (rest r) (question.after w)

/-- A member to which an idle flow comes is among those found when the flow is at its end. -/
theorem Reaches.mem {wanted : Tree → Prop} {a : α} {flow left : Flow (Run σ) α} {w w' : World σ}
    {found : List (α × World σ)} (h : Yields flow w found left w') (hleft : left = .done)
    (hflow : flow.Idle) (hwanted : ∀ t ∈ moments found w', wanted t)
    (hreach : Reaches wanted a flow w) : a ∈ found.map (·.1) := by
  induction h with
  | stay flow w =>
    subst hleft
    exact absurd hreach id
  | @next b rest left w w' w'' found h ih =>
    have hrest : ∀ t ∈ moments found w'', wanted t := fun t ht =>
      hwanted t (List.mem_cons_of_mem _ ht)
    rcases hreach with rfl | hreach
    · exact List.mem_cons_self
    -- the walk goes on in a tree that is seen at its next member, or at its end
    · have hstart : wanted w'.tree := hrest _ (h.start_mem_moments hflow)
      exact List.mem_cons_of_mem _ (ih hleft hflow hrest (hreach w' hstart))
  | ask hr h ih => exact ih hleft (hflow.2 _) hwanted (hreach _ hr)

/-- The last member to which a consumer of a list comes: those before it are consumed. -/
theorem trail_ofList {f : β → α → Run σ β} {as : List α} {b : β} {w x : World σ} {a : α}
    (h : (trail f b (.ofList as) w).getLast? = some (a, x)) :
    ∃ before later b', as = before ++ a :: later ∧
      ((ofList before).foldM f b).outcome w = .ok b' ∧
      ((ofList before).foldM f b).after w = x := by
  induction as generalizing b w with
  | nil => cases h
  | cons first rest ih =>
    rw [ofList, trail, List.getLast?_cons] at h
    cases hout : (f b first).outcome w with
    | error e =>
      rw [hout] at h
      cases h
      exact ⟨[], rest, b, rfl, rfl, rfl⟩
    | ok b₁ =>
      rw [hout] at h
      cases hlast : (trail f b₁ (.ofList rest) ((f b first).after w)).getLast? with
      | none =>
        simp only [hlast] at h
        cases h
        exact ⟨[], rest, b, rfl, rfl, rfl⟩
      | some last =>
        simp only [hlast] at h
        cases h
        obtain ⟨before, later, b', rfl, hok, hafter⟩ := ih hlast
        refine ⟨first :: before, later, b', rfl, ?_, ?_⟩
        · rw [ofList, foldM, Run.outcome_bind, hout]
          exact hok
        · rw [ofList, foldM, Run.after_bind, hout]
          exact hafter

/-- The members of a flow are these, in whatever trees of a kind its questions are asked. -/
def Foreseen (same : Tree → Prop) : Flow (Run σ) α → List α → Prop
  | .done, members => members = []
  | .next a rest, members => ∃ more, members = a :: more ∧ Foreseen same rest more
  | .ask question rest, members => question.Idle ∧
      ∀ r w, same w.tree → question.outcome w = .ok r → Foreseen same (rest r) members

/-- Members that are foreseen in trees of a kind are foreseen in trees of a narrower kind. -/
theorem Foreseen.mono {same narrower : Tree → Prop} (hsame : ∀ t, narrower t → same t)
    {flow : Flow (Run σ) α} {members : List α} (h : Foreseen same flow members) :
    Foreseen narrower flow members := by
  induction flow generalizing members with
  | done => exact h
  | next a rest ih =>
    obtain ⟨more, hmembers, hrest⟩ := h
    exact ⟨more, hmembers, ih hrest⟩
  | ask question rest ih =>
    exact ⟨h.1, fun r w hw hr => ih r (h.2 r w (hsame w.tree hw) hr)⟩

/-- Members that are foreseen are found by a walk to which nothing happens. -/
theorem Foreseen.yields {same : Tree → Prop} {flow : Flow (Run σ) α} {members : List α}
    (h : Foreseen same flow members) (w : World σ) (hw : same w.tree) :
    ∃ found w', Yields flow w found .done w' ∧ found.map (·.1) = members ∧
      (∀ x ∈ found, x.2.tree = w.tree) ∧ w'.tree = w.tree := by
  induction flow generalizing members w with
  | done =>
    obtain rfl : members = [] := h
    exact ⟨[], w, .stay .done w, rfl, nofun, rfl⟩
  | next a rest ih =>
    obtain ⟨more, rfl, hrest⟩ := h
    obtain ⟨found, w', hy, rfl, hall, hend⟩ := ih hrest w hw
    exact ⟨(a, w) :: found, w', .next hy, rfl, List.forall_mem_cons.mpr ⟨rfl, hall⟩, hend⟩
  | ask question rest ih =>
    obtain ⟨⟨r, hr⟩, ht, -⟩ := h.1.spec w
    obtain ⟨found, w', hy, hmembers, hall, hend⟩ :=
      ih r (h.2 r w hw hr) (question.after w) (ht ▸ hw)
    exact ⟨found, w', .ask hr hy, hmembers, fun x hx => (hall x hx).trans ht, hend.trans ht⟩

/-- A consumer of a flow whose members are foreseen takes them one by one: `inv` speaks of those
that are done, and `failed` also of the one at which it stopped and of those that come later. -/
theorem Foreseen.foldM_meets {same : Tree → Prop} {files : List α} (f : β → α → Run σ β)
    (admitted : α → World σ → Prop) (inv : List α → β → List Event → World σ → Prop)
    (failed : List α → α → List α → Error → List Event → World σ → Prop)
    (hsame : ∀ done b ds w, inv done b ds w → same w.tree)
    (hstill : ∀ done b ds w w', w.Still w' → inv done b ds w → inv done b ds w')
    (hstep : ∀ done a later b ds w, files = done ++ a :: later → admitted a w → inv done b ds w →
      (f b a).Meets w fun ds' r w' =>
        Ends (inv (done ++ [a])) (failed done a later) (ds ++ ds') r w')
    {flow : Flow (Run σ) α} {members : List α} (hflow : Foreseen same flow members)
    (done : List α) (hfiles : files = done ++ members) (b : β) (ds : List Event) (w : World σ)
    (hadmitted : ∀ x ∈ trail f b flow w, admitted x.1 x.2) (h : inv done b ds w) :
    (flow.foldM f b).Meets w fun ds' r w' => Ends (inv files)
      (fun e ds w => ∃ done a later, files = done ++ a :: later ∧ failed done a later e ds w)
      (ds ++ ds') r w' := by
  induction flow generalizing members done b ds w with
  | done =>
    obtain rfl : members = [] := hflow
    rw [List.append_nil] at hfiles
    refine .pure ?_
    rw [List.append_nil, hfiles]
    exact h
  | next a rest ih =>
    obtain ⟨more, rfl, hrest⟩ := hflow
    obtain ⟨hfirst, hlater⟩ := List.forall_mem_cons.mp hadmitted
    refine (hstep done a more b ds w hfiles hfirst h).exactly.bind ?_ ?_
    · intro ds' b' w' hmeets
      obtain ⟨hb, hr, rfl⟩ := hmeets
      rw [hr] at hlater
      have hdone : files = done ++ [a] ++ more := by simpa using hfiles
      have hnext := ih hrest (done ++ [a]) hdone b' (ds ++ ds') _ hlater hb
      refine hnext.mono fun ds'' r w'' hends => ?_
      rw [← List.append_assoc]
      exact hends
    · intro ds' e w' hmeets
      obtain ⟨he, -, -⟩ := hmeets
      exact ⟨done, a, more, hfiles, he⟩
  | ask question rest ih =>
    refine (hflow.1 w).exactly.bind ?_ ?_
    · intro ds' r w' hmeets
      obtain ⟨⟨rfl, -, hs⟩, hr, rfl⟩ := hmeets
      have hrest := hflow.2 r w (hsame done b ds w h) hr
      rw [trail, hr] at hadmitted
      exact ih r hrest done hfiles b ds _ hadmitted (hstill done b ds w _ hs h)
    · intro ds' e w' hmeets
      obtain ⟨⟨-, ⟨a, ha⟩, -⟩, -, -⟩ := hmeets
      cases ha

theorem Foreseen.toList {same : Tree → Prop} {flow : Flow (Run σ) α} {members : List α}
    (h : Foreseen same flow members) (w : World σ) (hw : same w.tree) :
    flow.toList.outcome w = .ok members := by
  let inv : List α → List α → List Event → World σ → Prop := fun done b _ w =>
    b = done ∧ same w.tree
  have hstep (done : List α) (a : α) (later b : List α) (ds : List Event) (w : World σ)
      (h : inv done b ds w) : (pure (b ++ [a]) : Run σ (List α)).Meets w fun ds' r w' =>
        Ends (inv (done ++ [a])) (fun _ _ _ => False) (ds ++ ds') r w' :=
    .pure ⟨by rw [h.1], h.2⟩
  obtain ⟨events, -, hends⟩ := h.foldM_meets (fun found a => pure (found ++ [a]))
    (fun _ _ => True) inv (fun _ _ _ _ _ _ => False) (fun _ _ _ _ h => h.2)
    (fun _ _ _ _ _ hs h => ⟨h.1, hs.1 ▸ h.2⟩)
    (fun done a later b ds w _ _ h => hstep done a later b ds w h) []
    (rfl : members = [] ++ members) [] [] w
    (fun _ _ => trivial) ⟨rfl, hw⟩
  cases hr : flow.toList.outcome w with
  | ok found =>
    unfold Flow.toList at hr
    rw [hr] at hends
    rw [hends.1]
  | error e =>
    unfold Flow.toList at hr
    rw [hr] at hends
    obtain ⟨_, _, _, -, hfalse⟩ := hends
    exact hfalse.elim

end Groom.Flow
