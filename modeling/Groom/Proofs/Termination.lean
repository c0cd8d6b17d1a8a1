import Groom.Proofs.Invariant
import Groom.Proofs.Passes
import Groom.Proofs.Visits

/-! Steps come to an end although tools change the tree while it is walked, as long as the tools let
directories and links only vanish. A walk enters no directory twice and none that was not there at
first, and of the calls that are allowed for a file none is made twice. -/
namespace Groom

variable {σ α β : Type}

/-- Calls may write and remove files, and remove directories and links, but they make no directory
and no link. -/
def Setting.Recedes (s : Setting σ) : Prop :=
  ∀ request state (tree : Tree), tree.Recedes (s.runner request state tree).tree

/-- What a check of a file requests. -/
def Linting.requests (tool : Tool) (file : Path) : List Request := [tool.workRequest file]

namespace Run

/-- From every world a run makes at most these requests, in this order, and directories and links
only vanish. -/
def Modest (allowed : List Request) (m : Run σ α) : Prop :=
  ∀ w, m.Meets w fun ds _ w' =>
    ((calls ds).map (·.1)).Sublist allowed ∧ w.tree.Recedes w'.tree

namespace Modest

variable {allowed more : List Request} {s : Setting σ}

theorem of_quiet {m : Run σ α} (hm : m.Quiet) : Modest [] m := by
  intro w
  refine (hm w).mono fun ds r w' hmeets => ?_
  obtain ⟨hcalls, htree, -⟩ := hmeets
  rw [hcalls, htree]
  exact ⟨.slnil, .refl w.tree⟩

theorem of_idle {m : Run σ α} (hm : m.Idle) : Modest [] m := of_quiet (.of_idle hm)

theorem bind {m : Run σ α} {f : α → Run σ β} (hm : Modest allowed m)
    (hf : ∀ a, Modest more (f a)) : Modest (allowed ++ more) (m >>= f) := by
  intro w
  refine (hm w).bind ?_ ?_
  · intro ds a w' hmeets
    refine (hf a w').mono fun ds' r w'' hmeets' => ?_
    rw [calls_append, List.map_append]
    exact ⟨hmeets.1.append hmeets'.1, hmeets.2.trans hmeets'.2⟩
  · intro ds e w' hmeets
    exact ⟨hmeets.1.trans (List.sublist_append_left ..), hmeets.2⟩

theorem forM {request : α → Request} {f : α → Run σ Unit}
    (hf : ∀ a, Modest [request a] (f a)) (as : List α) :
    Modest (as.map request) (as.forM f) := by
  induction as with
  | nil => exact of_idle (.pure ())
  | cons a rest ih => exact (hf a).bind fun _ => ih

variable (hs : s.Recedes)

include hs

theorem of_isCall {m : Run σ α} {request : Request}
    {verdict : Except IoError Status → Except Error α}
    (hm : IsCall s m request verdict) : Modest [request] m := by
  intro w
  refine (hm w _ rfl).mono fun ds r w' hmeets => ?_
  obtain ⟨rfl, -, htree, -⟩ := hmeets
  rw [htree]
  exact ⟨.refl _, hs request w.runner w.tree⟩

theorem format (passes : List Tool) (r : FormatReport) (file : Path) :
    Modest (Formatting.requests passes file)
      (Formatting.processOne s passes file >>= Formatting.record s r) := by
  have hpasses : Modest (Formatting.requests passes file)
      (passes.forM fun pass => pass.invokeChecked s file) :=
    forM (fun pass => of_isCall hs (pass.isCall_work s file)) passes
  have hone : Modest ([] ++ (Formatting.requests passes file ++ ([] ++ [])))
      (Formatting.processOne s passes file) := by
    refine (of_quiet (.capture s file)).bind fun before => hpasses.bind fun _ => ?_
    refine (of_quiet (.capture s file)).bind fun after => of_idle ?_
    exact (idle_log _ _ _).bind fun _ => (idle_files s).bind fun _ => .pure _
  simpa using hone.bind fun o => of_quiet (.record s r o)

theorem check (tool : Tool) (policy : FailurePolicy) (r : LintReport) (file : Path) :
    Modest (Linting.requests tool file) (Linting.checkOne s tool policy r file) := by
  intro w
  refine (Linting.checkOne_meets s tool policy r file _ w _ rfl rfl).mono fun ds out w' hmeets => ?_
  obtain ⟨rfl, -, htree, -⟩ | ⟨⟨htree, -⟩, taken, _, _, refusal, -, -, rfl, -⟩ := hmeets
  · rw [calls_append, calls_map_wrote, htree]
    exact ⟨.refl _, hs _ w.runner w.tree⟩
  · rw [Quiet.calls_refused, htree]
    exact ⟨List.nil_sublist _, .refl w.tree⟩

end Modest

end Run

namespace Flow

/-- What is known of a consumer that came to its end, or stopped: it made no more requests than are
allowed for the members to which it came, and the walk goes on, if at all, where it stopped. -/
structure Consumed (flow : Flow (Run σ) α) (requests : α → List Request) (w : World σ)
    (found : List (α × World σ)) (made : List Request) (left : Flow (Run σ) α) (w' : World σ) :
    Prop where
  made_sublist : made.Sublist ((found.map (·.1)).flatMap requests)
  yields : Yields flow w found left w'
  recedes : (moments found w').Pairwise Tree.Recedes
  later : ∀ t ∈ moments found w', w.tree.Recedes t

theorem Consumed.next {a : α} {rest left : Flow (Run σ) α} {requests : α → List Request}
    {w w' w'' : World σ} {found : List (α × World σ)} {first made : List Request}
    (hfirst : first.Sublist (requests a)) (hw : w.tree.Recedes w'.tree)
    (h : Consumed rest requests w' found made left w'') :
    Consumed (.next a rest) requests w ((a, w) :: found) (first ++ made) left w'' where
  made_sublist := by
    rw [List.map_cons, List.flatMap_cons]
    exact hfirst.append h.made_sublist
  yields := .next h.yields
  recedes := List.pairwise_cons.mpr ⟨fun t ht => hw.trans (h.later t ht), h.recedes⟩
  later := List.forall_mem_cons.mpr ⟨.refl w.tree, fun t ht => hw.trans (h.later t ht)⟩

theorem Consumed.stay (flow : Flow (Run σ) α) (requests : α → List Request) (w : World σ) :
    Consumed flow requests w [] [] flow w where
  made_sublist := .slnil
  yields := .stay flow w
  recedes := List.pairwise_singleton ..
  later := List.forall_mem_singleton.mpr (.refl w.tree)

/-- A consumer that is modest with each member is modest with the whole flow. -/
theorem Idle.foldM_modest {flow : Flow (Run σ) α} (hflow : flow.Idle) {f : β → α → Run σ β}
    {requests : α → List Request} (hf : ∀ b a, Run.Modest (requests a) (f b a)) (b : β)
    (w : World σ) : (flow.foldM f b).Meets w fun ds r w' =>
      ∃ left, Consumed flow requests w (trail f b flow w) ((calls ds).map (·.1)) left w' ∧
        (Run.stop r = none → left = .done) := by
  -- the trees are compared with the one in which the rest of the flow begins
  induction flow generalizing b w with
  | done => exact .pure ⟨.done, .stay .done requests w, fun _ => rfl⟩
  | next a rest ih =>
    refine (hf b a w).exactly.bind ?_ ?_
    · intro ds b' w' hmeets
      obtain ⟨⟨hcalls, hrecedes⟩, hr, rfl⟩ := hmeets
      refine (ih hflow b' _).mono fun ds' r w'' hrest => ?_
      obtain ⟨left, hconsumed, hleft⟩ := hrest
      rw [trail, hr, calls_append, List.map_append]
      exact ⟨left, hconsumed.next hcalls hrecedes, hleft⟩
    · intro ds e w' hmeets
      obtain ⟨⟨hcalls, hrecedes⟩, hr, rfl⟩ := hmeets
      rw [trail, hr, ← List.append_nil ((calls ds).map _)]
      refine ⟨rest, (Consumed.stay rest requests _).next hcalls hrecedes, fun h => ?_⟩
      cases h
  | ask question rest ih =>
    refine (hflow.1 w).exactly.bind ?_ ?_
    · intro ds r w' hmeets
      obtain ⟨⟨rfl, -, hs⟩, hr, rfl⟩ := hmeets
      refine (ih r (hflow.2 r) b _).mono fun ds' r' w'' hrest => ?_
      obtain ⟨left, hconsumed, hleft⟩ := hrest
      rw [trail, hr]
      exact ⟨left, ⟨hconsumed.made_sublist, .ask hr hconsumed.yields, hconsumed.recedes,
        fun t ht => hs.1 ▸ hconsumed.later t ht⟩, hleft⟩
    · intro ds e w' hmeets
      obtain ⟨⟨-, ⟨a, ha⟩, -⟩, -, -⟩ := hmeets
      cases ha

end Flow

namespace Walk

/-- A walk at work, which finds files in the worlds to which the work leads. Its visits are a tour
that comes to no place twice; it enters no directory twice, and only directories that were there
when it began; it finds no file twice, and no more files than it listed; and the requests that are
made are some of those for the files, in their order, so there are at most `each` for every file.
-/
structure Works (s : Setting σ) (root : Path) (selection : Selection)
    (requests : Path → List Request) (each : Nat) (w : World σ) (found : List (Path × World σ))
    (made : List Request) (last : World σ) (visits : List (Entry × Tree)) (left : List Entry) :
    Prop where
  toured : Toured s root selection (start ⟨w.tree, s.cwd⟩ root) w found last visits left
  visits_sorted : (visits.map (·.1.1)).Pairwise Location.Before
  entered_once : (visits.filterMap (entered s.cwd root)).Nodup
  entered_there :
    ∀ loc ∈ visits.filterMap (entered s.cwd root), w.tree.kind? loc = some .directory
  found_once : (found.map (·.1)).Nodup
  found_length_le :
    found.length ≤ 1 + (visits.flatMap fun v => children ⟨v.2, s.cwd⟩ root v.1).length
  made_sublist : made.Sublist ((found.map (·.1)).flatMap requests)
  made_length_le : made.length ≤ each * found.length

/-- What a modest consumer of a walk comes to. -/
theorem works_of_modest (s : Setting σ) (root : Path) (selection : Selection)
    {f : β → Path → Run σ β} {requests : Path → List Request} {each : Nat}
    (heach : ∀ file, (requests file).length = each)
    (hf : ∀ b file, Run.Modest (requests file) (f b file)) (b : β) (w : World σ) :
    ((targets s root selection).foldM f b).Meets w fun ds r w' => ∃ visits left,
      Works s root selection requests each w (Flow.trail f b (targets s root selection) w)
        ((calls ds).map (·.1)) w' visits left ∧ (Run.stop r = none → left = []) := by
  have hidle := targets_idle s root selection
  refine (hidle.foldM_modest hf b w).mono fun ds r w' hmeets => ?_
  obtain ⟨rest, hconsumed, hrest⟩ := hmeets
  obtain ⟨visits, left, htoured, hleft⟩ :=
    followsFrom_targets s root selection w _ rest w' hconsumed.yields hconsumed.recedes
  have hlength (files : List Path) : (files.flatMap requests).length = each * files.length := by
    simp [List.length_flatMap, heach, Nat.mul_comm]
  have hmade := hconsumed.made_sublist.length_le
  rw [hlength] at hmade
  refine ⟨visits, left, ?_, fun hr => hleft (hrest hr)⟩
  exact {
    toured := htoured
    visits_sorted := htoured.visits_sorted
    entered_once := htoured.entered_once
    entered_there := fun _ hloc => Tour.entered_there htoured.later hloc
    found_once := htoured.found_once
    found_length_le := htoured.found_length_le
    made_sublist := hconsumed.made_sublist
    made_length_le := by simpa only [List.length_map] using hmade }

end Walk

/-- How a step goes on from a world: some of the requests that prepare it are made, in their order,
and then a walk is at work, unless the step has stopped before. -/
inductive Proceeds (s : Setting σ) (root : Path) (selection : Selection)
    (requests : Path → List Request) (each : Nat) (f : β → Path → Run σ β) (b : β) (w : World σ)
    (prepared : List Request) : List Request → Option Error → Prop
  | unprepared {probed : List Request} {e : Error} (hprobed : probed.Sublist prepared) :
      Proceeds s root selection requests each f b w prepared probed (some e)
  | walked {probed made : List Request} {stopped : Option Error} {w' last : World σ}
      {visits : List (Walk.Entry × Tree)} {left : List Walk.Entry}
      (hprobed : probed.Sublist prepared) (hw : w.tree.Recedes w'.tree)
      (hworks : Walk.Works s root selection requests each w'
        (Flow.trail f b (Walk.targets s root selection) w') made last visits left)
      (hleft : stopped = none → left = []) :
      Proceeds s root selection requests each f b w prepared (probed ++ made) stopped

namespace FormatStep

/-- What a step does with a file that it finds. -/
def format (s : Setting σ) (step : FormatStep) (r : FormatReport) (file : Path) :
    Run σ FormatReport :=
  Formatting.processOne s step.passes file >>= Formatting.record s r

theorem proceeds {s : Setting σ} (hs : s.Recedes) (step : FormatStep) (w : World σ) :
    (step.run s).Meets w fun ds r _ =>
      Proceeds s step.root step.selection (Formatting.requests step.passes) step.passes.length
        (step.format s) {} w (step.probes.map (·.probeRequest)) ((calls ds).map (·.1))
        (Run.stop r) := by
  have hprobes : Run.Modest (step.probes.map (·.probeRequest))
      (step.probes.forM (·.ensureAvailable s)) :=
    .forM (fun tool => .of_isCall hs (tool.isCall_probe s)) step.probes
  have hlength (file : Path) : (Formatting.requests step.passes file).length = step.passes.length :=
    List.length_map _
  refine (hprobes w).bind ?_ ?_
  · rintro ds _ w₁ ⟨hprobed, hrecedes⟩
    refine Run.log_bind_meets fun w₂ hstill => .map ?_
    unfold Formatting.report
    rw [Flow.foldM_mapM]
    refine (Walk.works_of_modest s _ _ hlength (Run.Modest.format hs step.passes) {} w₂).mono ?_
    rintro ds' r w₃ ⟨visits, left, hworks, hleft⟩
    rw [calls_append, List.map_append, Run.stop_map]
    exact .walked hprobed (hstill.1 ▸ hrecedes) hworks hleft
  · rintro ds e w₁ ⟨hprobed, -⟩
    exact .unprepared hprobed

end FormatStep

theorem Linting.checkBatch_works {s : Setting σ} (hs : s.Recedes) {root : Path}
    {selection : Selection} (tool : Tool) (policy : FailurePolicy) (w : World σ) :
    (checkBatch s tool policy (Walk.targets s root selection)).Meets w fun ds r w' =>
      ∃ visits left, Walk.Works s root selection (requests tool) 1 w
        (Flow.trail (checkOne s tool policy) {} (Walk.targets s root selection) w)
        ((calls ds).map (·.1)) w' visits left ∧ (Run.stop r = none → left = []) := by
  have hlength (file : Path) : (requests tool file).length = 1 := rfl
  refine (Walk.works_of_modest s _ _ hlength (Run.Modest.check hs tool policy) {} w).bind ?_ ?_
  · rintro ds report w₁ ⟨visits, left, hworks, hleft⟩
    split
    · refine .pure ?_
      rw [List.append_nil]
      exact ⟨visits, left, hworks, fun _ => hleft rfl⟩
    · refine .throw ?_
      rw [List.append_nil]
      exact ⟨visits, left, hworks, nofun⟩
  · rintro ds e w₁ ⟨visits, left, hworks, -⟩
    exact ⟨visits, left, hworks, nofun⟩

namespace LintStep

theorem proceeds {s : Setting σ} (hs : s.Recedes) (step : LintStep) (w : World σ) :
    (step.run s).Meets w fun ds r _ => ∃ dir,
      Proceeds s step.sourceDir step.selection
        (Linting.requests (step.invocation dir)) 1
        (Linting.checkOne s (step.invocation dir) step.policy) {} w [step.tool.probeRequest]
        ((calls ds).map (·.1)) (Run.stop r) := by
  have hprobe : Run.Modest [step.tool.probeRequest] (step.tool.ensureAvailable s) :=
    .of_isCall hs (step.tool.isCall_probe s)
  refine (hprobe w).bind ?_ ?_
  · rintro ds _ w₁ ⟨hprobed, hrecedes⟩
    -- the search calls nothing, so the files are walked in the tree that the probe leaves
    refine (Run.Quiet.search s step.searchRoot Linting.compileCommands w₁).bind ?_ ?_
    · rintro ds' database w₂ ⟨hsearch, hstill⟩
      refine Run.log_bind_meets fun w₃ hstill' => .map ?_
      have hw : w.tree.Recedes w₃.tree := (hstill.trans hstill').1 ▸ hrecedes
      refine (Linting.checkBatch_works hs _ step.policy w₃).mono ?_
      rintro ds'' r w₄ ⟨visits, left, hworks, hleft⟩
      rw [calls_append, calls_append, hsearch, List.nil_append, List.map_append, Run.stop_map]
      exact ⟨_, .walked hprobed hw hworks hleft⟩
    · rintro ds' e w₂ ⟨hsearch, -⟩
      rw [calls_append, hsearch, List.append_nil]
      exact ⟨step.searchRoot, .unprepared hprobed⟩
  · rintro ds e w₁ ⟨hprobed, -⟩
    exact ⟨step.searchRoot, .unprepared hprobed⟩

end LintStep

/-- A search for files calls nothing, and its walk comes to its end. -/
theorem Walk.search_works (s : Setting σ) (root : Path) (selection : Selection) (w : World σ) :
    ∃ last visits, Works s root selection (fun _ => []) 0 w
      (Flow.trail (fun found file => pure (found ++ [file])) [] (targets s root selection) w) []
      last visits [] := by
  have hpure (found : List Path) (file : Path) :
      Run.Modest [] (pure (found ++ [file]) : Run σ (List Path)) := .of_idle (.pure _)
  have hlength (_ : Path) : ([] : List Request).length = 0 := rfl
  have hidle := targets_idle s root selection
  obtain ⟨⟨files, hfiles⟩, -⟩ := hidle.toList_idle.spec w
  obtain ⟨events, -, visits, left, hworks, hleft⟩ :=
    works_of_modest s root selection hlength hpure [] w
  have hnone : (calls (deeds events)).map (·.1) = [] := by
    have hlength := hworks.made_length_le
    exact List.eq_nil_of_length_eq_zero (by omega)
  rw [hnone, hleft (Run.stop_eq_none_iff.mpr ⟨files, hfiles⟩)] at hworks
  exact ⟨_, visits, hworks⟩

/-- Steps come to an end although tools change the tree while it is walked, as long as directories
and links only vanish. No walk goes on for ever. A step asks for each of its tools once at most, and
then it is at work on a walk, which enters no directory twice, and only such as were there when it
began, which finds no file twice, and for which each pass is run once at most on every file. -/
theorem steps_terminate (s : Setting σ) (hs : s.Recedes) :
    (∀ (root : Path) (trees : Nat → Tree) (pending : Nat → List Walk.Entry),
      (∀ n, (trees n).Recedes (trees (n + 1))) → ¬Walk.Endless s.cwd root trees pending) ∧
    (∀ (root : Path) (selection : Selection) (w : World σ), ∃ last visits,
      Walk.Works s root selection (fun _ => []) 0 w
        (Flow.trail (fun found file => pure (found ++ [file])) [] (Walk.targets s root selection) w)
        [] last visits []) ∧
    (∀ (step : FormatStep) (w : World σ), (step.run s).Meets w fun ds r _ =>
      Proceeds s step.root step.selection (Formatting.requests step.passes) step.passes.length
        (step.format s) {} w (step.probes.map (·.probeRequest)) ((calls ds).map (·.1))
        (Run.stop r)) ∧
    ∀ (step : LintStep) (w : World σ), (step.run s).Meets w fun ds r _ => ∃ dir,
      Proceeds s step.sourceDir step.selection (Linting.requests (step.invocation dir)) 1
        (Linting.checkOne s (step.invocation dir) step.policy) {} w [step.tool.probeRequest]
        ((calls ds).map (·.1)) (Run.stop r) :=
  ⟨fun _ _ _ htrees => Walk.not_endless htrees, Walk.search_works s,
    fun step w => step.proceeds hs w, fun step w => step.proceeds hs w⟩

/-- Each call writes a file into a directory that the walk has not entered yet; the walk comes to it
later, and to its end. -/
theorem steps_terminate_with_new_files :
    let a : Name := ⟨[97], by decide⟩
    let b : Name := ⟨[98], by decide⟩
    let s : Setting Unit :=
      ⟨⟨[], 0⟩, fun _ _ t => ⟨.ok .success, [], (), t.put [b, a] (.file [] false)⟩, .willing⟩
    let step : FormatStep :=
      ⟨"format", ⟨[Bytes.slash]⟩, .names ["a"], [], [.named "tool", .named "tool"]⟩
    let w : World Unit := ⟨⟨[(b, .directory []), (a, .file [] false)], []⟩, (), []⟩
    let made := (calls (deeds ((step.run s).events w))).map (·.1)
    s.Recedes ∧ made.length = 4 ∧ ∃ w' last visits,
      Walk.Works s step.root step.selection (Formatting.requests step.passes) 2 w'
        (Flow.trail (step.format s) {} (Walk.targets s step.root step.selection) w') made last
        visits [] := by
  intro a b s step w made
  have hs : s.Recedes := fun _ _ t => .put_file t [b, a] [] false
  have hproceeds := ((steps_terminate s hs).2.2.1 step w).events.2
  have hstop : Run.stop ((step.run s).outcome w) = none := by decide +kernel
  rw [hstop] at hproceeds
  refine ⟨hs, by decide +kernel, ?_⟩
  change Proceeds _ _ _ _ _ _ _ _ _ made none at hproceeds
  generalize made = made at hproceeds ⊢
  cases hproceeds with
  | walked hprobed _ hworks hleft =>
    obtain rfl := List.sublist_nil.mp hprobed
    obtain rfl := hleft rfl
    exact ⟨_, _, _, hworks⟩

end Groom
