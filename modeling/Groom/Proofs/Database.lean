import Groom.Proofs.Phases
import Groom.Proofs.SteadyWalk

/-! How the compilation database decides a step of checks. The step looks for files of that name
below its search root. Without any, or with several, it stops there; with one, the tool is told its
directory with every file that it checks. -/
namespace Groom

open Run (stop)

variable {σ : Type}

namespace Linting

/-- Requests of the runner, one for each file: a file is found in the world that the request before
it left. -/
inductive Visits (s : Setting σ) (request : Path → Request) :
    World σ → List (Path × World σ) → World σ → Prop
  | none {w w' : World σ} (h : w.Still w') : Visits s request w [] w'
  | file {w x y w' : World σ} {file : Path} {found : List (Path × World σ)} (h : w.Still x)
      (htree : y.tree = (s.runner (request file) x.runner x.tree).tree)
      (hrunner : y.runner = (s.runner (request file) x.runner x.tree).state)
      (hrest : Visits s request y found w') : Visits s request w ((file, x) :: found) w'

theorem Visits.still {s : Setting σ} {request : Path → Request} {w w' w'' : World σ}
    {found : List (Path × World σ)} (hs : w.Still w') (h : Visits s request w' found w'') :
    Visits s request w found w'' := by
  cases h with
  | none h => exact .none (hs.trans h)
  | file h htree hrunner hrest => exact .file (hs.trans h) htree hrunner hrest

/-- A tool is set to work once on each file that was found, and the files are at their end if the
batch is finished. -/
structure Checked (s : Setting σ) (tool : Tool) (files : Flow (Run σ) Path) (w : World σ)
    (found : List (Path × World σ)) (left : Flow (Run σ) Path) (last : World σ)
    (requests : List Request) (finished : Prop) : Prop where
  yields : files.Yields w found left last
  visits : Visits s tool.workRequest w found last
  requests_eq : requests = found.map fun x => tool.workRequest x.1
  at_end : finished → left = .done

theorem checks_meets (s : Setting σ) (tool : Tool) (policy : FailurePolicy)
    {files : Flow (Run σ) Path} (hfiles : files.Idle) (r : LintReport) (w : World σ) :
    (files.foldM (checkOne s tool policy) r).Meets w fun ds out w' =>
      ∃ found left last, last.Still w' ∧ Checked s tool files w found left last
        ((calls ds).map (·.1)) (stop out = none) := by
  induction files generalizing r w with
  | done => exact .pure ⟨[], .done, w, .refl w, .stay .done w, .none (.refl w), rfl, fun _ => rfl⟩
  | next file rest ih =>
    refine (checkOne_meets s tool policy r file _ w _ rfl rfl).exactly.bind ?_ ?_
    · intro ds r' w₁ hmeets
      obtain ⟨⟨rfl, -, htree, hrunner, -⟩ | ⟨-, _, _, _, _, -, -, -, h⟩, -, -⟩ := hmeets
      · refine (ih hfiles r' w₁).mono fun ds' out w₂ hrest => ?_
        obtain ⟨found, left, last, hs, hyields, hvisits, hrequests, hend⟩ := hrest
        refine ⟨(file, w) :: found, left, last, hs, .next hyields,
          .file (.refl w) htree hrunner hvisits, ?_, hend⟩
        simp [hrequests]
      · cases h
    · intro ds e w₁ hmeets
      obtain ⟨h, -, -⟩ := hmeets
      obtain ⟨rfl, -, htree, hrunner, -⟩ | ⟨hs, taken, piece, _, refusal, -, -, rfl, -⟩ := h
      · refine ⟨[(file, w)], rest, w₁, .refl w₁, .next (.stay rest w₁),
          .file (.refl w) htree hrunner (.none (.refl w₁)), ?_, nofun⟩
        simp
      -- a file whose announcement is refused is not worked on
      · refine ⟨[], .next file rest, w, hs, .stay _ w, .none (.refl w), ?_, nofun⟩
        simp [calls, Event.call?]
  | ask question rest ih =>
    refine (hfiles.1 w).exactly.bind ?_ ?_
    · intro ds answer w₁ hmeets
      obtain ⟨⟨rfl, -, hs⟩, hanswer, rfl⟩ := hmeets
      refine (ih answer (hfiles.2 answer) r _).mono fun ds' out w₂ hrest => ?_
      obtain ⟨found, left, last, hs', hyields, hvisits, hrequests, hend⟩ := hrest
      exact ⟨found, left, last, hs', .ask hanswer hyields, hvisits.still hs, hrequests, hend⟩
    · intro ds e w₁ hmeets
      obtain ⟨⟨-, ⟨answer, hanswer⟩, -⟩, -, -⟩ := hmeets
      cases hanswer

theorem checkBatch_meets (s : Setting σ) (tool : Tool) (policy : FailurePolicy)
    {files : Flow (Run σ) Path} (hfiles : files.Idle) (w : World σ) :
    (checkBatch s tool policy files).Meets w fun ds out w' =>
      ∃ found left last, last.Still w' ∧ Checked s tool files w found left last
        ((calls ds).map (·.1)) (stop out = none) := by
  refine (checks_meets s tool policy hfiles {} w).bind ?_ ?_
  · intro ds r w₁ hmeets
    obtain ⟨found, left, last, hs, hchecked⟩ := hmeets
    have hend : left = .done := hchecked.at_end rfl
    split
    · exact .pure ⟨found, left, last, hs, by simpa using { hchecked with at_end := fun _ => hend }⟩
    · exact .throw ⟨found, left, last, hs, by simpa using { hchecked with at_end := fun _ => hend }⟩
  · intro ds e w₁ hmeets
    exact hmeets

end Linting

theorem Selection.accepts_name {name : String} {p : Path} :
    (Selection.names [name]).accepts p = true ↔ p.fileName? = some (Bytes.ofString name) := by
  unfold accepts
  cases p.fileName? with
  | none => simp
  | some bytes => simp [eq_comm]

/-- A path that ends in a name has a parent, to which the name was added. -/
theorem Path.parent_of_fileName {p : Path} {name : Bytes} (h : p.fileName? = some name) :
    ∃ dir, p.parent? = some dir ∧ p.components = dir.components ++ [.name name] := by
  have hlast : p.components.getLast? = some (.name name) := by
    unfold fileName? at h
    split at h <;> cases h
    assumption
  obtain ⟨front, hfront⟩ := List.getLast?_eq_some_iff.mp hlast
  obtain ⟨dir, hdir, rfl⟩ := parent_of_components hfront
  exact ⟨dir, hdir, hfront⟩

namespace LintStep

/-- The request that has a file checked with the database in a directory. -/
def checkRequest (step : LintStep) (dir file : Path) : Request :=
  ⟨step.tool.program, step.tool.base ++ step.extraArgs.map Bytes.ofString ++
    [Bytes.ofString "-p", dir.bytes, file.bytes], .inherit⟩

theorem workRequest_invocation (step : LintStep) (dir : Path) :
    (step.invocation dir).workRequest = step.checkRequest dir := by
  funext file
  simp [Tool.workRequest, Tool.invocationFor, invocation, Tool.withInvocation, checkRequest,
    Arg.fill, Arg.ofString, Function.comp_def]

/-- What a step of checks does with the database in a directory, once its probe has left a world: no
error of the configuration ends it, and the tool is set to work only on files to which the walk
comes, on each at most once and in the order of the walk. -/
structure Checks (s : Setting σ) (step : LintStep) (dir : Path) (w : World σ)
    (requests : List Request) (outcome : Except Error StepReport) : Prop where
  configured : ∀ cause, outcome ≠ .error (.configuration cause)
  walked : ∃ start found left last, w.Still start ∧
    (Walk.targets s step.sourceDir step.selection).Yields start found left last ∧
    Linting.Visits s (step.checkRequest dir) start found last ∧
    requests = found.map (fun x => step.checkRequest dir x.1) ∧
    (∃ places : List Location, found.map (·.1) = places.map step.sourceDir.below ∧
      places.Pairwise Location.Before) ∧
    (∀ x ∈ found, (FileSystem.mk x.2.tree s.cwd).isFile x.1 = true ∧
      step.selection.accepts x.1 = true) ∧
    ((∃ report, outcome = .ok report) → left = .done)

/-- A step of checks that has asked for its tool, and has neither set it to work nor written. -/
structure Refrains (step : LintStep) (events : List Event) : Prop where
  calls_eq : calls events = [(step.tool.probeRequest, .ok .success)]
  unwritten : ∀ e ∈ events, e.piece? = none

/-- How a step of checks goes on, once its probe has left a world, with the databases that are
there. -/
def Decided (s : Setting σ) (step : LintStep) (w : World σ) (events : List Event)
    (outcome : Except Error StepReport) : List Path → Prop
  | [] => step.Refrains events ∧
    outcome = .error (.configuration (.notFound "compile_commands.json"))
  | [database] => ∃ dir requests, database.parent? = some dir ∧
    database.components = dir.components ++ [.name (Bytes.ofString "compile_commands.json")] ∧
    (calls events).map (·.1) = step.tool.probeRequest :: requests ∧
    step.Checks s dir w requests outcome
  | databases => step.Refrains events ∧
    outcome = .error (.configuration (.multiple "compile_commands.json" databases))

theorem refrains_of_deeds {step : LintStep} {found : List Path} {events : List Event}
    (h : deeds events = [.called step.tool.probeRequest (.ok .success),
      .searched Linting.compileCommands found]) : step.Refrains events where
  calls_eq := by
    rw [← calls_deeds, h]
    rfl
  unwritten := by
    have hprepares : ∀ e ∈ deeds events, e.Prepares [step.tool] := by
      rw [h]
      simp [Event.Prepares]
    exact (quiet_of_prepares hprepares).2

theorem Checks.still {s : Setting σ} {step : LintStep} {dir : Path} {w w' : World σ}
    {requests : List Request} {outcome : Except Error StepReport} (hs : w.Still w')
    (h : step.Checks s dir w' requests outcome) : step.Checks s dir w requests outcome := by
  obtain ⟨start, found, left, last, hstart, hrest⟩ := h.walked
  exact ⟨h.configured, start, found, left, last, hs.trans hstart, hrest⟩

/-- The batch of a step of checks, with the database in a directory. -/
theorem checks_of_batch (s : Setting σ) (step : LintStep) (dir : Path) (w : World σ) :
    (Linting.checkBatch s (step.invocation dir) step.policy
        (Walk.targets s step.sourceDir step.selection)).Meets w fun ds r _ =>
      step.Checks s dir w ((calls ds).map (·.1)) (r.map .linted) := by
  let tool := step.invocation dir
  have hidle := Walk.targets_idle s step.sourceDir step.selection
  have hworks := (Law.working_works s (· = tool)).batch tool step.policy _ rfl hidle w
  refine ((Linting.checkBatch_meets s tool step.policy hidle w).and hworks).mono ?_
  intro ds r w' hmeets
  obtain ⟨⟨found, left, last, hs, hyields, hvisits, hrequests, hend⟩, -, hunreported⟩ := hmeets
  rw [step.workRequest_invocation dir] at hvisits hrequests
  obtain ⟨⟨places, hplaces, hsorted, -⟩, hfits⟩ :=
    Walk.places_of_finds hyields none (Walk.finds_targets w)
  refine ⟨fun cause hcause => ?_, w, found, left, last, .refl w, hyields, hvisits, hrequests,
    ⟨places, hplaces, hsorted⟩, hfits, ?_⟩
  · cases r with
    | ok report => cases hcause
    | error e =>
      obtain rfl := Except.error.inj hcause
      cases hunreported _ rfl
  · rintro ⟨report, hreport⟩
    cases r with
    | ok report => exact hend rfl
    | error e => cases hreport

theorem checks_of_database (s : Setting σ) (step : LintStep) (dir : Path) (message : String)
    (w : World σ) :
    (Run.log .debug .steps message >>= fun _ =>
      Linting.checkBatch s (step.invocation dir) step.policy
        (Walk.targets s step.sourceDir step.selection) >>= fun report =>
      pure (.linted report)).Meets w fun ds r _ =>
        step.Checks s dir w ((calls ds).map (·.1)) r := by
  refine Run.log_bind_meets fun w₁ hs => (checks_of_batch s step dir w₁).bind ?_ ?_
  · intro ds report w₂ hchecks
    refine .pure ?_
    rw [List.append_nil]
    exact hchecks.still hs
  · intro ds e w₂ hchecks
    exact hchecks.still hs

theorem decided_of_search {s : Setting σ} {step : LintStep} {w : World σ} {found : List Path}
    (hprobe : (s.runner step.tool.probeRequest w.runner w.tree).answer = .ok .success)
    (htree : (s.runner step.tool.probeRequest w.runner w.tree).tree = w.tree)
    (hsearch : ∀ w' : World σ, w'.tree = w.tree →
      (Walk.targets s step.searchRoot (.names [Linting.compileCommands])).toList.outcome w' =
        .ok found)
    (hnamed : ∀ path ∈ found, path.fileName? = some (Bytes.ofString Linting.compileCommands)) :
    let probed := { w with runner := (s.runner step.tool.probeRequest w.runner w.tree).state }
    (step.run s).Meets w fun ds r _ => ∀ events, deeds events = ds →
      step.Decided s probed events r found := by
  intro probed
  refine (step.tool.ensureAvailable_meets s w _ rfl).bind ?_ ?_
  · intro ds _ w₁ hmeets
    obtain ⟨rfl, -, htree₁, hrunner₁⟩ := hmeets
    rw [hprobe]
    refine (Linting.findUnique_meets s step.searchRoot Linting.compileCommands w₁).bind ?_ ?_
    · intro ds database w₂ hmeets
      obtain ⟨hs₂, found', hfound, rfl, hdatabase⟩ := hmeets
      obtain rfl := Except.ok.inj ((hsearch w₁ (htree₁.trans htree)).symm.trans hfound)
      rcases found with _ | ⟨path, _ | ⟨path', rest⟩⟩ <;> cases hdatabase
      -- there is one database, and the batch is run with its directory
      obtain ⟨dir, hdir, hcomponents⟩ :=
        Path.parent_of_fileName (hnamed database List.mem_cons_self)
      rw [hdir]
      have hstart : probed.Still w₂ :=
        ⟨hs₂.1.trans (htree₁.trans htree), hs₂.2.trans hrunner₁⟩
      refine (checks_of_database s step dir _ w₂).mono fun ds r w₃ hchecks events hevents => ?_
      refine ⟨dir, (calls ds).map (·.1), hdir, hcomponents, ?_, hchecks.still hstart⟩
      rw [← calls_deeds, hevents]
      rfl
    · intro ds e w₂ hmeets
      obtain ⟨-, found', hfound, rfl, he⟩ := hmeets
      obtain rfl := Except.ok.inj ((hsearch w₁ (htree₁.trans htree)).symm.trans hfound)
      intro events hevents
      have hrefrains : step.Refrains events := refrains_of_deeds hevents
      rcases found with _ | ⟨path, _ | ⟨path', rest⟩⟩ <;> cases he
      · exact ⟨hrefrains, rfl⟩
      · exact ⟨hrefrains, rfl⟩
  · intro ds e w₁ hmeets
    obtain ⟨-, hverdict, -⟩ := hmeets
    rw [hprobe] at hverdict
    cases hverdict

/-- Compilation databases decide a step of checks whose tool is there. The step looks at all regular
files of that name, or links to one, that can be reached from its search root without entering a
linked directory, in the order of their places. If there is none, or if there are several, the step
ends with an error that says so, and nothing is checked or written. If there is one, its directory
is handed to the tool with each file that the walk over the sources gives, and the step does not end
with such an error. -/
theorem database_decides (s : Setting σ) (step : LintStep) (w : World σ)
    (hprobe : (s.runner step.tool.probeRequest w.runner w.tree).answer = .ok .success)
    (htree : (s.runner step.tool.probeRequest w.runner w.tree).tree = w.tree) :
    let probed := { w with runner := (s.runner step.tool.probeRequest w.runner w.tree).state }
    ∃ (places : List Location) (events : List Event),
      places.Pairwise Location.Before ∧
      (∀ place, place ∈ places ↔ Walk.Reachable ⟨w.tree, s.cwd⟩ step.searchRoot place ∧
        (step.searchRoot.below place).fileName? =
          some (Bytes.ofString "compile_commands.json")) ∧
      ((step.run s).after w).journal = w.journal ++ events ∧
      step.Decided s probed events ((step.run s).outcome w)
        (places.map step.searchRoot.below) := by
  intro probed
  let selection : Selection := .names [Linting.compileCommands]
  obtain ⟨places, hplaces, hsorted, hmem⟩ := Walk.exists_places s step.searchRoot selection w
  have hmem (place : Location) : place ∈ places ↔
      Walk.Reachable ⟨w.tree, s.cwd⟩ step.searchRoot place ∧
        (step.searchRoot.below place).fileName? =
          some (Bytes.ofString Linting.compileCommands) := by
    rw [hmem, Selection.accepts_name]
  have hsearch (w' : World σ) (hw : w'.tree = w.tree) :
      (Walk.targets s step.searchRoot selection).toList.outcome w' =
        .ok (places.map step.searchRoot.below) := by
    have hforeseen := Walk.foreseen_survey w.tree s step.searchRoot selection
    rw [hforeseen.toList w' (hw ▸ .refl w.tree), hplaces]
  have hnamed : ∀ path ∈ places.map step.searchRoot.below,
      path.fileName? = some (Bytes.ofString Linting.compileCommands) := by
    intro path hpath
    obtain ⟨place, hplace, rfl⟩ := List.mem_map.mp hpath
    exact ((hmem place).mp hplace).2
  obtain ⟨events, hj, hdecided⟩ := decided_of_search hprobe htree hsearch hnamed
  exact ⟨places, events, hsorted, hmem, hj, hdecided events rfl⟩

/-- A database in `/b`, to which a link leads too, and one source: it is checked with `-p /b`. -/
theorem database_of_small_project :
    let b : Name := ⟨[98], by decide⟩
    let database : Name := ⟨Bytes.ofString "compile_commands.json", by decide⟩
    let s : Setting Unit := ⟨⟨[], 0⟩, fun _ _ tree => ⟨.ok .success, [], (), tree⟩, .willing⟩
    let step : LintStep := ⟨"lint", .ofString "/", .ofString "/", .bySuffix ["c"],
      .named "clang-tidy", ["--quiet"], .abort⟩
    let w : World Unit := ⟨⟨[(⟨[99], by decide⟩, .link [98]),
      (⟨Bytes.ofString "a.c", by decide⟩, .file [] false),
      (b, .directory [(database, .file [] false)])], []⟩, (), []⟩
    let request : Request := ⟨.ofString "clang-tidy",
      ["--quiet", "-p", "/b", "/a.c"].map Bytes.ofString, .inherit⟩
    (s.runner step.tool.probeRequest w.runner w.tree).answer = .ok .success ∧
      (s.runner step.tool.probeRequest w.runner w.tree).tree = w.tree ∧
      Run.stop ((step.run s).outcome w) = none ∧
      ∃ events, ((step.run s).after w).journal = w.journal ++ events ∧
        (calls events).map (·.1) = [step.tool.probeRequest, request] ∧
        step.Checks s (.ofString "/b") w [request] ((step.run s).outcome w) := by
  intro b database s step w request
  have hok : Run.stop ((step.run s).outcome w) = none := by decide +kernel
  have hreachable : Walk.Reachable ⟨w.tree, s.cwd⟩ step.searchRoot [b, database] := by
    refine ⟨by decide, fun front hne hprefix hproper => ?_, by decide +kernel⟩
    obtain rfl : front = [b] := by
      rcases List.prefix_cons_iff.mp hprefix with rfl | ⟨rest, rfl, hrest⟩
      · exact absurd rfl hne
      · rcases List.prefix_cons_iff.mp hrest with rfl | ⟨more, rfl, hmore⟩
        · rfl
        · obtain rfl := List.prefix_nil.mp hmore
          exact absurd rfl hproper
    exact ⟨[(database, .file [] false)], by rfl⟩
  obtain ⟨places, events, -, hmem, hj, hdecided⟩ := database_decides s step w rfl rfl
  have hplace : [b, database] ∈ places := (hmem _).mpr ⟨hreachable, by decide +kernel⟩
  refine ⟨rfl, rfl, hok, ?_⟩
  -- since the step ended well, the place that is known is the only one
  rcases places with _ | ⟨place, _ | ⟨place', rest⟩⟩
  · cases hplace
  · obtain rfl := List.mem_singleton.mp hplace
    obtain ⟨dir, requests, hdir, -, hcalls, hchecks⟩ := hdecided
    have hb : (step.searchRoot.below [b, database]).parent? = some (.ofString "/b") := by
      decide +kernel
    obtain rfl := Option.some.inj (hb.symm.trans hdir)
    have hmade : (calls ((step.run s).after w).journal).map (·.1) =
        [step.tool.probeRequest, request] := by
      decide +kernel
    rw [hj, List.nil_append, hcalls] at hmade
    obtain rfl : requests = [request] := (List.cons.inj hmade).2
    exact ⟨events, hj, hcalls, hchecks⟩
  · have herror := hdecided.2
    rw [herror] at hok
    cases hok

end LintStep

end Groom
