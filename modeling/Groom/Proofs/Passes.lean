import Groom.Formatting
import Groom.Proofs.Operation

/-! The passes over one file, with any tools and any tree. What they do to the file in between does
not matter: the file counts as changed by its bytes at both ends, and only the answers of the passes
decide how far the work on it goes. -/
namespace Groom

variable {σ α : Type}

/-- Requests that are answered with success, one after another. They lead from one state of the
runner and of the tree to another. -/
inductive Setting.Succeed (s : Setting σ) : List Request → σ × Tree → σ × Tree → Prop
  | nothing (x : σ × Tree) : Succeed s [] x x
  | request {request : Request} {rest : List Request} {x y : σ × Tree} {reply : Reply σ}
      (hreply : s.runner request x.1 x.2 = reply) (hanswer : reply.answer = .ok .success)
      (hrest : Succeed s rest (reply.state, reply.tree) y) : Succeed s (request :: rest) x y

/-- The call of a request that succeeds. -/
def Request.success (request : Request) : Event := .called request (.ok .success)

/-- Calls are made one after another, up to the first that does not succeed. -/
theorem Run.calls_course {s : Setting σ} {m : α → Run σ Unit} {request : α → Request}
    {verdict : α → Except IoError Status → Except Error Unit}
    (hcall : ∀ a, IsCall s (m a) (request a) (verdict a))
    (hverdict : ∀ a answer, verdict a answer = .ok () → answer = .ok .success) (as : List α)
    (w : World σ) :
    (as.forM m).Meets w fun ds out w' =>
      (ds = (as.map request).map Request.success ∧ out = .ok () ∧
        s.Succeed (as.map request) (w.runner, w.tree) (w'.runner, w'.tree)) ∨
      ∃ done a later y reply e, as = done ++ a :: later ∧
        s.Succeed (done.map request) (w.runner, w.tree) y ∧
        s.runner (request a) y.1 y.2 = reply ∧ verdict a reply.answer = .error e ∧
        ds = (done.map request).map Request.success ++ [.called (request a) reply.answer] ∧
        out = .error e ∧ (w'.runner, w'.tree) = (reply.state, reply.tree) := by
  induction as generalizing w with
  | nil => exact .pure (.inl ⟨rfl, rfl, .nothing _⟩)
  | cons a rest ih =>
    rw [forM_cons]
    refine (hcall a w _ rfl).bind ?_ ?_
    · intro ds _ w₁ hmeets
      obtain ⟨rfl, hout, htree, hrunner⟩ := hmeets
      have hanswer := hverdict a _ hout.symm
      refine (ih w₁).mono fun ds' out w₂ hrest => ?_
      rw [htree, hrunner] at hrest
      obtain ⟨rfl, hout', hsucceed⟩ |
        ⟨done, last, later, y, reply, e, rfl, hdone, hreply, he, rfl, hend⟩ := hrest
      · refine .inl ⟨?_, hout', .request rfl hanswer hsucceed⟩
        rw [hanswer]
        rfl
      · refine .inr ⟨a :: done, last, later, y, reply, e, rfl, .request rfl hanswer hdone, hreply,
          he, ?_, hend⟩
        rw [hanswer]
        rfl
    · intro ds e w₁ hmeets
      obtain ⟨rfl, he, htree, hrunner⟩ := hmeets
      refine .inr ⟨[], a, rest, _, _, e, rfl, .nothing _, rfl, he.symm, rfl, rfl, ?_⟩
      rw [htree, hrunner]

namespace Formatting

/-- What some passes request for a file. -/
def requests (passes : List Tool) (file : Path) : List Request := passes.map (·.workRequest file)

/-- The course of the work on one file: its deeds, its outcome, and what it leaves. -/
inductive Course (s : Setting σ) (passes : List Tool) (file : Path) (x : σ × Tree) :
    List Event → Except Error FileOutcome → σ × Tree → Prop
  | unreadable {cause : IoError} (hbefore : (FileSystem.mk x.2 s.cwd).read file = .error cause) :
      Course s passes file x [.captured file (.error cause)] (.error (.io file cause)) x
  /-- The passes after the first that does not succeed are not made. -/
  | stopped {before : Bytes} {done later : List Tool} {pass : Tool} {y : σ × Tree} {reply : Reply σ}
      {e : Error} (hbefore : (FileSystem.mk x.2 s.cwd).read file = .ok before)
      (hpasses : passes = done ++ pass :: later) (hdone : s.Succeed (requests done file) x y)
      (hreply : s.runner (pass.workRequest file) y.1 y.2 = reply)
      (hverdict : pass.workVerdict reply.answer = .error e) :
      Course s passes file x
        (.captured file (.ok before) ::
          ((requests done file).map Request.success ++
            [.called (pass.workRequest file) reply.answer]))
        (.error e) (reply.state, reply.tree)
  /-- The file is not there after the last pass, or cannot be read. -/
  | lost {before : Bytes} {y : σ × Tree} {cause : IoError}
      (hbefore : (FileSystem.mk x.2 s.cwd).read file = .ok before)
      (hpasses : s.Succeed (requests passes file) x y)
      (hafter : (FileSystem.mk y.2 s.cwd).read file = .error cause) :
      Course s passes file x
        (.captured file (.ok before) ::
          ((requests passes file).map Request.success ++ [.captured file (.error cause)]))
        (.error (.io file cause)) y
  | finished {before after : Bytes} {y : σ × Tree} {change : Change}
      (hbefore : (FileSystem.mk x.2 s.cwd).read file = .ok before)
      (hpasses : s.Succeed (requests passes file) x y)
      (hafter : (FileSystem.mk y.2 s.cwd).read file = .ok after)
      (hchange : change = .changed ↔ after ≠ before) :
      Course s passes file x
        (.captured file (.ok before) ::
          ((requests passes file).map Request.success ++ [.captured file (.ok after)]))
        (.ok ⟨(FileSystem.mk y.2 s.cwd).absolute file, change⟩) y

variable {s : Setting σ} {file : Path}

theorem processOne_meets_course (s : Setting σ) (passes : List Tool) (file : Path) (w : World σ) :
    (processOne s passes file).Meets w fun ds out w' =>
      Course s passes file (w.runner, w.tree) ds out (w'.runner, w'.tree) := by
  let fs := FileSystem.mk w.tree s.cwd
  refine (Run.capture_meets s file w).bind ?_ ?_
  · intro ds before w₁ hmeets
    obtain ⟨rfl, hread, htree, hrunner⟩ := hmeets
    have hbefore : fs.read file = .ok before := Run.eq_ok_of_mapError hread
    rw [hbefore]
    refine (Run.calls_course (fun pass => pass.isCall_work s file)
      (fun _ _ => Tool.workVerdict_eq_ok.mp) passes w₁).bind ?_ ?_
    · intro ds' _ w₂ hmeets
      obtain ⟨rfl, -, hsucceed⟩ | ⟨_, _, _, _, _, _, -, -, -, -, -, hout, -⟩ := hmeets
      · rw [htree, hrunner] at hsucceed
        -- what is read now is compared with what was read first
        refine (Run.capture_meets s file w₂).bind ?_ ?_
        · intro ds'' after w₃ hmeets
          obtain ⟨rfl, hread', hs⟩ := hmeets
          have hafter := Run.eq_ok_of_mapError hread'
          rw [hafter]
          refine Run.log_bind_meets fun w₄ hs' => Run.files_bind_meets (.pure ?_)
          rw [(hs.trans hs').1, (hs.trans hs').2]
          refine .finished hbefore hsucceed hafter ?_
          by_cases h : before = after <;> simp [h, eq_comm]
        · intro ds'' e w₃ hmeets
          obtain ⟨rfl, hread', hs⟩ := hmeets
          obtain ⟨cause, hafter, rfl⟩ := Run.eq_error_of_mapError hread'
          rw [hafter, hs.1, hs.2]
          exact .lost hbefore hsucceed hafter
      · cases hout
    · intro ds' e w₂ hmeets
      obtain ⟨-, hout, -⟩ |
        ⟨done, pass, later, y, reply, e', hpasses, hdone, hreply, hverdict, rfl, hout, hend⟩ :=
          hmeets
      · cases hout
      · cases hout
        rw [htree, hrunner] at hdone
        rw [hend]
        exact .stopped hbefore hpasses hdone hreply hverdict
  · intro ds e w₁ hmeets
    obtain ⟨rfl, hread, hs⟩ := hmeets
    obtain ⟨cause, hbefore, rfl⟩ := Run.eq_error_of_mapError hread
    rw [hbefore, hs.1, hs.2]
    exact .unreadable hbefore

/-- Without passes a file that can be read is unchanged. -/
theorem Course.without_passes {x y : σ × Tree} {ds : List Event} {out : Except Error FileOutcome}
    {content : Bytes} (h : Course s [] file x ds out y)
    (hcontent : (FileSystem.mk x.2 s.cwd).read file = .ok content) :
    out = .ok ⟨(FileSystem.mk x.2 s.cwd).absolute file, .unchanged⟩ := by
  cases h with
  | unreadable hbefore => cases hcontent.symm.trans hbefore
  | stopped _ hpasses =>
    cases List.append_ne_nil_of_right_ne_nil _ (List.cons_ne_nil _ _) hpasses.symm
  | lost _ hpasses hafter =>
    cases hpasses
    cases hcontent.symm.trans hafter
  | @finished before after _ change hbefore hpasses hafter hchange =>
    cases hpasses
    obtain rfl := Except.ok.inj (hbefore.symm.trans hafter)
    cases change with
    | changed => exact absurd rfl (hchange.mp rfl)
    | unchanged => rfl

/-- The work on one file stops at the first pass that does not succeed. If all of them succeed, only
the bytes before the first and after the last tell whether the file was changed. -/
theorem processOne_course (s : Setting σ) (passes : List Tool) (file : Path) (w : World σ) :
    (processOne s passes file).Meets w fun ds out w' =>
      Course s passes file (w.runner, w.tree) ds out (w'.runner, w'.tree) ∧
      (passes = [] → ∀ content, (FileSystem.mk w.tree s.cwd).read file = .ok content →
        out = .ok ⟨(FileSystem.mk w.tree s.cwd).absolute file, .unchanged⟩) := by
  refine (processOne_meets_course s passes file w).mono fun ds out w' hcourse => ?_
  refine ⟨hcourse, ?_⟩
  rintro rfl content hcontent
  exact hcourse.without_passes hcontent

end Formatting

end Groom
