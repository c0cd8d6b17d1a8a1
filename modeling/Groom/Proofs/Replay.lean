import Groom.Proofs.Invariant

/-! A run without the run: only the runner changes the tree and its own state, so both are what the
runner makes of the requests of the run, given to it one after another. -/
namespace Groom

variable {σ : Type}

namespace Setting

/-- What the runner leaves after some requests. -/
def replay (s : Setting σ) (requests : List Request) (start : σ × Tree) : σ × Tree :=
  requests.foldl
    (fun x request => ((s.runner request x.1 x.2).state, (s.runner request x.1 x.2).tree)) start

theorem replay_append (s : Setting σ) (requests more : List Request) (start : σ × Tree) :
    s.replay (requests ++ more) start = s.replay more (s.replay requests start) :=
  List.foldl_append

theorem preserves_replay (s : Setting σ) (start : σ × Tree) :
    s.Preserves fun cs state tree => (state, tree) = s.replay (cs.map (·.1)) start := by
  intro request cs state tree h
  rw [List.map_append, replay_append, ← h]
  rfl

end Setting

theorem Step.replays (s : Setting σ) (step : Step) (w : World σ) :
    (step.run s).Meets w fun ds _ w' =>
      (w'.runner, w'.tree) = s.replay ((calls ds).map (·.1)) (w.runner, w.tree) :=
  Run.Keeps.step (s.preserves_replay (w.runner, w.tree)) step w [] rfl

/-- The tree and the state of the runner after a chain of steps are those after its requests. -/
theorem Chain.replays (s : Setting σ) (steps : List Step) (w : World σ) :
    (Chain.runSteps s steps).Meets w fun ds _ w' =>
      (w'.runner, w'.tree) = s.replay ((calls ds).map (·.1)) (w.runner, w.tree) :=
  Run.Keeps.runSteps (s.preserves_replay (w.runner, w.tree)) steps w [] rfl

end Groom
