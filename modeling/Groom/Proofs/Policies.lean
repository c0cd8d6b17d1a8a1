import Groom.Proofs.Operation
import Groom.Proofs.Parts

/-! What the policy of a batch of checks decides. Up to the first file that fails a batch does the
same under both policies. There one ends, and the other goes on to the end of the batch, unless it
is interrupted or its report is refused. -/
namespace Groom

open Run (Ends)

variable {σ α β : Type}

/-- What ends a batch of checks under any policy. -/
def Error.Halts : Error → Prop
  | .interrupted | .output _ => True
  | _ => False

/-- What a tool that fails on one file ends a batch with, unless failures are collected. -/
def Error.Fails : Error → Prop
  | .toolInvocation .. | .io .. => True
  | _ => False

namespace Linting

/-- One run fails where the other goes on. -/
def Forks (abort collect : Run σ α) (w : World σ) : Prop :=
  (∃ e, abort.outcome w = .error e ∧ e.Fails) ∧ ∃ a, collect.outcome w = .ok a

theorem Forks.of_begun {m : Run σ α} {f f' : α → Run σ β} {w : World σ}
    (hf : ∀ a, m.outcome w = .ok a →
      (f a).Alike (f' a) (m.after w) ∨ Forks (f a) (f' a) (m.after w)) :
    (m >>= f).Alike (m >>= f') w ∨ Forks (m >>= f) (m >>= f') w := by
  unfold Run.Alike Forks
  rw [Run.outcome_bind, Run.outcome_bind, Run.after_bind, Run.after_bind]
  cases hr : m.outcome w with
  | error e => exact .inl ⟨rfl, rfl⟩
  | ok a => exact hf a hr

theorem attempt_forks (s : Setting σ) (tool : Tool) (path file : Path) (w : World σ) :
    (attempt s tool .abort path file).Alike (attempt s tool .continue path file) w ∨
      (∃ cause, (attempt s tool .abort path file).outcome w = .error (.io tool.program cause)) ∧
        (attempt s tool .continue path file).outcome w = .ok (.failed none) := by
  obtain ⟨-, -, -, hinvoke, -, -⟩ := Tool.invoke_meets s tool file w _ rfl
  unfold Run.Alike attempt
  dsimp only
  rw [Run.outcome_tryCatch, Run.after_tryCatch]
  cases hr : (tool.invoke s file).outcome w with
  | ok status => exact .inl ⟨rfl, rfl⟩
  | error e =>
    obtain ⟨cause, -, rfl⟩ := Run.eq_error_of_mapError (hr ▸ hinvoke)
    exact .inr ⟨⟨cause, rfl⟩, rfl⟩

theorem checkOne_forks (s : Setting σ) (tool : Tool) (r : LintReport) (file : Path)
    (w : World σ) :
    (checkOne s tool .abort r file).Alike (checkOne s tool .continue r file) w ∨
      Forks (checkOne s tool .abort r file) (checkOne s tool .continue r file) w := by
  refine Forks.of_begun fun fs _ => Forks.of_begun fun _ _ => ?_
  dsimp only
  generalize (Run.writeLine s (line (fs.absolute file))).after ((Run.files s).after w) = w₁
  unfold Run.Alike Forks
  simp only [Run.outcome_bind, Run.after_bind]
  -- the line is written under both policies; they differ from the attempt on
  rcases attempt_forks s tool (fs.absolute file) file w₁ with ⟨ho, ha⟩ | ⟨⟨cause, ho⟩, hc⟩
  · rw [ho, ha]
    rcases (attempt s tool .continue (fs.absolute file) file).outcome w₁ with e | _ | code | _
    · exact .inl ⟨rfl, rfl⟩
    · exact .inl ⟨rfl, rfl⟩
    · exact .inr ⟨⟨_, rfl, trivial⟩, _, rfl⟩
    · exact .inl ⟨rfl, rfl⟩
  · rw [ho, hc]
    exact .inr ⟨⟨_, rfl, trivial⟩, _, rfl⟩

/-- A later report of the same batch: failures are only added, and none is added under the policy
that ends at the first one. -/
def Extends (policy : FailurePolicy) (r r' : LintReport) : Prop :=
  r.failed <+: r'.failed ∧ (policy = .abort → r'.failed = r.failed)

theorem checkOne_ends (s : Setting σ) (tool : Tool) (policy : FailurePolicy) (r : LintReport)
    (file : Path) (w : World σ) :
    (checkOne s tool policy r file).Meets w
      (Ends (fun r' _ _ => Extends policy r r') fun e _ _ => e.Halts ∨ policy = .abort) := by
  refine (checkOne_meets s tool policy r file _ w _ rfl rfl).mono fun ds out w' hmeets => ?_
  have hsame : Extends policy r r := ⟨List.prefix_rfl, fun _ => rfl⟩
  obtain ⟨-, rfl, -⟩ | ⟨-, _, _, _, _, -, -, -, rfl⟩ := hmeets
  · generalize (s.runner (tool.workRequest file) w.runner w.tree).answer = answer
    cases policy with
    | abort =>
      rcases answer with cause | _ | code | _
      · exact .inr rfl
      · exact hsame
      · exact .inr rfl
      · exact .inr rfl
    | «continue» =>
      rcases answer with cause | _ | code | _
      · exact ⟨List.prefix_append _ _, nofun⟩
      · exact hsame
      · exact ⟨List.prefix_append _ _, nofun⟩
      · exact .inl trivial
  · exact .inl trivial

theorem checks_ends (s : Setting σ) (tool : Tool) (policy : FailurePolicy)
    {files : Flow (Run σ) Path} (hfiles : files.Idle) (r : LintReport) (w : World σ) :
    (files.foldM (checkOne s tool policy) r).Meets w
      (Ends (fun r' _ _ => Extends policy r r') fun e _ _ => e.Halts ∨ policy = .abort) := by
  let inv : LintReport → List Event → World σ → Prop := fun r' _ _ => Extends policy r r'
  have hstep (r' : LintReport) (file : Path) (ds : List Event) (w : World σ) (h : inv r' ds w) :
      (checkOne s tool policy r' file).Meets w fun ds' out w' =>
        Ends inv (fun e _ _ => e.Halts ∨ policy = .abort) (ds ++ ds') out w' := by
    refine (checkOne_ends s tool policy r' file w).mono fun ds' out w' hends => ?_
    cases out with
    | error e => exact hends
    | ok r'' => exact ⟨h.1.trans hends.1, fun hp => (hends.2 hp).trans (h.2 hp)⟩
  refine (hfiles.foldM_meets _ inv _ (fun _ _ _ _ _ h => h) hstep r [] w
    ⟨List.prefix_rfl, fun _ => rfl⟩).mono fun ds out w' hends => ?_
  cases out <;> exact hends

/-- One run fails on the answer to the last of its requests. The other has done the same so far, and
goes on with one failure found. -/
structure Diverges (abort collect : Run σ LintReport) (w : World σ) (begun : List Event)
    (request : Request) (answer : Except IoError Status) (first : Path) : Prop where
  fails : abort.Meets w fun ds out _ => ds = begun ++ [.called request answer] ∧
    ∃ e, out = .error e ∧ e.Fails
  goes_on : collect.Meets w fun ds out w' => begun ++ [.called request answer] <+: ds ∧
    Ends (fun r _ _ => [first] <+: r.failed) (fun e _ _ => e.Halts) ds out w'

variable {abort collect : Run σ LintReport} {w : World σ} {begun : List Event}
  {request : Request} {answer : Except IoError Status} {first : Path}

theorem Diverges.after {m m' : Run σ α} {f f' : α → Run σ LintReport} {a : α} {ds : List Event}
    (halike : m.Alike m' w) (hr : m.outcome w = .ok a) (hm : m.Meets w fun ds' _ _ => ds' = ds)
    (h : Diverges (f a) (f' a) (m.after w) begun request answer first) :
    Diverges (m >>= f) (m' >>= f') w (ds ++ begun) request answer first where
  fails := by
    refine .bind_ok hr hm (h.fails.mono fun ds' out w' hmeets => ?_)
    obtain ⟨rfl, hout⟩ := hmeets
    exact ⟨(List.append_assoc ..).symm, hout⟩
  goes_on := by
    have hr' : m'.outcome w = .ok a := halike.1.symm.trans hr
    have hgoes := h.goes_on
    rw [halike.2] at hgoes
    refine .bind_ok hr' (halike.meets hm) (hgoes.mono fun ds' out w' hmeets => ?_)
    obtain ⟨hbegun, hends⟩ := hmeets
    rw [List.append_assoc]
    refine ⟨List.prefix_append_right_inj ds |>.mpr hbegun, ?_⟩
    cases out <;> exact hends

/-- A file that fails and ends the batch under one policy is a failure found under the other. -/
theorem verdict_of_fails {tool : Tool} {r : LintReport} {path : Path} {e : Error}
    (h : verdict tool .abort r path answer = .error e) (he : e.Fails) :
    verdict tool .continue r path answer = .ok ⟨r.checked ++ [path], r.failed ++ [path]⟩ := by
  rcases answer with cause | _ | code | _
  · rfl
  · cases h
  · rfl
  · cases h
    exact he.elim

theorem diverges_at {s : Setting σ} {tool : Tool} {rest : Flow (Run σ) Path} (hrest : rest.Idle)
    {r : LintReport} (hr : r.failed = []) {file : Path}
    (h : Forks (checkOne s tool .abort r file) (checkOne s tool .continue r file) w) :
    ∃ begun answer, Diverges ((Flow.next file rest).foldM (checkOne s tool .abort) r)
      ((Flow.next file rest).foldM (checkOne s tool .continue) r) w begun
      (tool.workRequest file) answer ((FileSystem.mk w.tree s.cwd).absolute file) := by
  obtain ⟨⟨e, he, hfails⟩, r₀, hr₀⟩ := h
  let path := (FileSystem.mk w.tree s.cwd).absolute file
  let reply := s.runner (tool.workRequest file) w.runner w.tree
  let begun := (Run.linePieces (line path)).map Event.wrote
  have habort : (checkOne s tool .abort r file).Meets w fun ds out _ =>
      ds = begun ++ [.called (tool.workRequest file) reply.answer] ∧ out = .error e ∧
      verdict tool .abort r path reply.answer = .error e := by
    refine (checkOne_meets s tool .abort r file path w reply rfl rfl).exactly.mono ?_
    intro ds out w' hmeets
    obtain ⟨⟨rfl, hverdict, -⟩ | ⟨-, _, _, _, refusal, -, -, -, hout⟩, hrun, -⟩ := hmeets
    · have hout : out = .error e := hrun.symm.trans he
      exact ⟨rfl, hout, hverdict.symm.trans hout⟩
    · cases hout.symm.trans (hrun.symm.trans he)
      exact hfails.elim
  have hverdict : verdict tool .continue r path reply.answer =
      .ok ⟨r.checked ++ [path], r.failed ++ [path]⟩ := by
    obtain ⟨events, -, -, -, hverdict⟩ := habort
    exact verdict_of_fails hverdict hfails
  refine ⟨begun, reply.answer, ?_, ?_⟩
  · refine habort.bind ?_ ?_
    · intro ds r' w' hmeets
      cases hmeets.2.1
    · intro ds e' w' hmeets
      obtain ⟨hds, hout, -⟩ := hmeets
      cases hout
      exact ⟨hds, e, rfl, hfails⟩
  · refine (checkOne_meets s tool .continue r file path w reply rfl rfl).exactly.bind ?_ ?_
    · intro ds r₁ w₁ hmeets
      obtain ⟨⟨rfl, hout, -, -⟩ | ⟨-, _, _, _, refusal, -, -, -, hout⟩, -, -⟩ := hmeets
      · obtain rfl := Except.ok.inj (hout.trans hverdict)
        -- the file is the first failure, and it stays the first to the end of the batch
        refine (checks_ends s tool .continue hrest _ w₁).mono fun ds' out w₂ hends => ?_
        refine ⟨List.prefix_append _ _, ?_⟩
        cases out with
        | error e => exact hends.resolve_right nofun
        | ok r₂ =>
          have hfirst : r.failed ++ [path] <+: r₂.failed := hends.1
          rw [hr] at hfirst
          exact hfirst
      · cases hout
    · intro ds e' w' hmeets
      cases hmeets.2.1.symm.trans hr₀

/-- A batch does the same under both policies, or it comes to a file on which they diverge. -/
theorem checks_forks (s : Setting σ) (tool : Tool) {files : Flow (Run σ) Path}
    (hfiles : files.Idle) (r : LintReport) (hr : r.failed = []) (w : World σ) :
    (files.foldM (checkOne s tool .abort) r).Alike (files.foldM (checkOne s tool .continue) r) w ∨
      ∃ file x begun answer,
        (Flow.trail (checkOne s tool .abort) r files w).getLast? = some (file, x) ∧
        Diverges (files.foldM (checkOne s tool .abort) r)
          (files.foldM (checkOne s tool .continue) r) w begun (tool.workRequest file) answer
          ((FileSystem.mk x.tree s.cwd).absolute file) := by
  induction files generalizing r w with
  | done => exact .inl (.refl _ w)
  | next file rest ih =>
    have hrest : rest.Idle := hfiles
    obtain halike | hforks := checkOne_forks s tool r file w
    · cases hout : (checkOne s tool .abort r file).outcome w with
      | error e => exact .inl (halike.bind fun r' hok => nomatch hok.symm.trans hout)
      | ok r' =>
        -- a file that is passed under the first policy leaves no failure behind
        have hr' : r'.failed = [] := by
          obtain ⟨_, -, hends⟩ := checkOne_ends s tool .abort r file w
          rw [hout] at hends
          exact (hends.2 rfl).trans hr
        obtain hsame | ⟨last, x, begun, answer, hlast, hdiverges⟩ := ih hrest r' hr' _
        · refine .inl (halike.bind fun r'' hok => ?_)
          obtain rfl := Except.ok.inj (hok.symm.trans hout)
          exact hsame
        · obtain ⟨events, hevents⟩ := checkOne_meets s tool .abort r file _ w _ rfl rfl
          have hfirst : (checkOne s tool .abort r file).Meets w fun ds _ _ => ds = deeds events :=
            ⟨events, hevents.1, rfl⟩
          refine .inr ⟨last, x, deeds events ++ begun, answer, ?_,
            hdiverges.after halike hout hfirst⟩
          rw [Flow.trail, hout, List.getLast?_cons, hlast]
          rfl
    · obtain ⟨begun, answer, hdiverges⟩ := diverges_at hrest hr hforks
      refine .inr ⟨file, w, begun, answer, ?_, hdiverges⟩
      obtain ⟨⟨e, he, -⟩, -⟩ := hforks
      rw [Flow.trail, he]
      rfl
  | ask question rest ih =>
    obtain ⟨⟨answer, hanswer⟩, -⟩ := hfiles.1.spec w
    have hquestion : question.Alike question w := .refl question w
    obtain hsame | ⟨last, x, begun, reply, hlast, hdiverges⟩ :=
      ih answer (hfiles.2 answer) r hr (question.after w)
    · refine .inl (hquestion.bind fun answer' hok => ?_)
      obtain rfl := Except.ok.inj (hok.symm.trans hanswer)
      exact hsame
    · have hidle : question.Meets w fun ds _ _ => ds = [] :=
        (hfiles.1 w).mono fun ds _ _ hmeets => hmeets.1
      refine .inr ⟨last, x, begun, reply, ?_, hdiverges.after hquestion hanswer hidle⟩
      rw [Flow.trail, hanswer]
      exact hlast

/-- A batch in which no file fails does the same under both policies, and in one in which a file
fails the first such file is the one at which they diverge. -/
theorem checkBatch_forks (s : Setting σ) (tool : Tool) {files : Flow (Run σ) Path}
    (hfiles : files.Idle) (w : World σ) :
    let abort := checkBatch s tool .abort files
    let collect := checkBatch s tool .continue files
    (abort.Alike collect w ∧ ∀ e, abort.outcome w = .error e → e.Halts) ∨
      ∃ file x begun answer,
        (Flow.trail (checkOne s tool .abort) {} files w).getLast? = some (file, x) ∧
        abort.Meets w (fun ds out _ => ds = begun ++ [.called (tool.workRequest file) answer] ∧
          ∃ e, out = .error e ∧ e.Fails) ∧
        collect.Meets w fun ds out _ =>
          begun ++ [.called (tool.workRequest file) answer] <+: ds ∧
          ∃ e, out = .error e ∧ (e.Halts ∨ ∃ more,
            e = .checksFailed ((FileSystem.mk x.tree s.cwd).absolute file :: more)) := by
  intro abort collect
  obtain halike | ⟨file, x, begun, answer, hlast, hdiverges⟩ :=
    checks_forks s tool hfiles {} rfl w
  · refine .inl ⟨halike.bind fun r _ => .refl _ _, fun e he => ?_⟩
    obtain ⟨_, -, habort⟩ := checks_ends s tool .abort hfiles {} w
    obtain ⟨_, -, hcollect⟩ := checks_ends s tool .continue hfiles {} w
    rw [← halike.1] at hcollect
    dsimp only [abort, checkBatch] at he
    rw [Run.outcome_bind] at he
    cases hout : (files.foldM (checkOne s tool .abort) {}).outcome w with
    | error e' =>
      rw [hout] at he hcollect
      cases he
      exact hcollect.resolve_right nofun
    | ok r =>
      rw [hout] at he habort
      have hr : r.failed = [] := habort.2 rfl
      dsimp only at he
      rw [if_pos hr] at he
      cases he
  · refine .inr ⟨file, x, begun, answer, hlast, ?_, ?_⟩
    · refine hdiverges.fails.bind ?_ fun ds e w' h => ?_
      · rintro ds r w' ⟨-, e, he, -⟩
        cases he
      · obtain ⟨rfl, e', he, hfails⟩ := h
        cases he
        exact ⟨rfl, e, rfl, hfails⟩
    · refine hdiverges.goes_on.bind ?_ fun ds e w' h => ⟨h.1, e, rfl, .inl h.2⟩
      intro ds r w' h
      obtain ⟨hbegun, more, hmore⟩ := h
      have hfailed : r.failed ≠ [] := by
        rw [← hmore]
        exact List.cons_ne_nil _ _
      rw [if_neg hfailed]
      refine .throw ?_
      rw [List.append_nil]
      exact ⟨hbegun, _, rfl, .inr ⟨more, by rw [← hmore]; rfl⟩⟩

theorem checkBatch_adds (s : Setting σ) (tool : Tool) (policy : FailurePolicy)
    {files : Flow (Run σ) Path} (hfiles : files.Idle) (w : World σ) :
    (checkBatch s tool policy files).Meets w fun _ _ _ => True := by
  refine (checks_ends s tool policy hfiles {} w).bind ?_ fun _ _ _ _ => trivial
  intro ds r w' _
  split
  · exact .pure trivial
  · exact .throw trivial

/-- Up to the file at which a batch ends, it is a batch that succeeds. -/
theorem begun_of_trail {s : Setting σ} {tool : Tool} {files : List Path} {file : Path}
    {x : World σ}
    (h : (Flow.trail (checkOne s tool .abort) {} (.ofList files) w).getLast? = some (file, x)) :
    ∃ before later r, files = before ++ file :: later ∧
      (checkBatch s tool .abort (.ofList before)).outcome w = .ok r ∧
      (checkBatch s tool .abort (.ofList before)).after w = x := by
  obtain ⟨before, later, r, hfiles, hr, hx⟩ := Flow.trail_ofList h
  have hclean : r.failed = [] := by
    obtain ⟨_, -, hends⟩ := checks_ends s tool .abort (Flow.idle_ofList before) {} w
    rw [hr] at hends
    exact hends.2 rfl
  refine ⟨before, later, r, hfiles, ?_⟩
  unfold checkBatch
  rw [Run.outcome_bind, Run.after_bind, hr, hx]
  dsimp only
  rw [if_pos hclean]
  exact ⟨rfl, rfl⟩

/-- A batch under the policy that ends at the first failure is the beginning of the same batch under
the policy that collects failures. They succeed together; and if no file fails, they are the same to
the last record. If one fails, it is the first in the list of failures, provided that the second
batch comes to its end. -/
theorem abort_begins_collect (s : Setting σ) (tool : Tool) (files : List Path) (w : World σ) :
    let abort := checkBatch s tool .abort (.ofList files)
    let collect := checkBatch s tool .continue (.ofList files)
    ((abort.after w).journal = w.journal ++ abort.events w ∧
      (collect.after w).journal = w.journal ++ collect.events w ∧
      calls (abort.events w) <+: calls (collect.events w) ∧
      ∃ rest, text (collect.events w) = text (abort.events w) ++ rest) ∧
    ((∃ r, abort.outcome w = .ok r) ↔ ∃ r, collect.outcome w = .ok r) ∧
    ((∀ e, abort.outcome w = .error e → e.Halts) →
      collect.outcome w = abort.outcome w ∧ collect.after w = abort.after w) ∧
    ∀ e, abort.outcome w = .error e → ¬ e.Halts → e.Fails ∧
      ∃ before file later, files = before ++ file :: later ∧
        let begun := checkBatch s tool .abort (.ofList before)
        let path := (FileSystem.mk (begun.after w).tree s.cwd).absolute file
        (∃ r, begun.outcome w = .ok r) ∧
        (∃ answer, (calls (abort.events w)).getLast? = some (tool.workRequest file, answer)) ∧
        ∃ e', collect.outcome w = .error e' ∧
          (e'.Halts ∨ ∃ more, e' = .checksFailed (path :: more)) := by
  intro abort collect
  obtain ⟨hjournal, -⟩ := (checkBatch_adds s tool .abort (Flow.idle_ofList files) w).events
  obtain ⟨hjournal', -⟩ := (checkBatch_adds s tool .continue (Flow.idle_ofList files) w).events
  obtain ⟨halike, hhalts⟩ | ⟨file, x, begun, answer, hlast, habort, hcollect⟩ :=
    checkBatch_forks s tool (Flow.idle_ofList files) w
  · have hsame : collect.outcome w = abort.outcome w ∧ collect.after w = abort.after w :=
      ⟨halike.1.symm, halike.2.symm⟩
    have hevents : collect.events w = abort.events w := by
      unfold Run.events
      rw [hsame.2]
    refine ⟨⟨hjournal, hjournal', ?_, "", ?_⟩, ?_, fun _ => hsame, ?_⟩
    · exact ⟨[], (List.append_nil _).trans (congrArg calls hevents.symm)⟩
    · rw [hevents, String.append_empty]
    · rw [hsame.1]
    · intro e he hnot
      exact absurd (hhalts e he) hnot
  · obtain ⟨-, hdeeds, e, he, hfails⟩ := habort.events
    obtain ⟨-, ⟨more, hmore⟩, e', he', hends⟩ := hcollect.events
    rw [← hdeeds] at hmore
    have hnot : ¬ e.Halts := by
      intro hhalts
      cases e <;> first | exact hhalts | exact hfails
    refine ⟨⟨hjournal, hjournal', ?_, ?_⟩, ?_, ?_, ?_⟩
    · refine ⟨calls more, ?_⟩
      have hcalls := congrArg calls hmore
      rwa [calls_append, calls_deeds, calls_deeds] at hcalls
    · refine ⟨text more, ?_⟩
      have htext := congrArg text hmore
      rw [text_append, text_deeds, text_deeds] at htext
      exact htext.symm
    · constructor
      · rintro ⟨r, hr⟩
        cases he.symm.trans hr
      · rintro ⟨r, hr⟩
        cases he'.symm.trans hr
    · intro h
      exact absurd (h e he) hnot
    · intro e₁ he₁ _
      obtain rfl := Except.error.inj (he.symm.trans he₁)
      obtain ⟨before, later, r, hfiles, hr, hx⟩ := begun_of_trail hlast
      refine ⟨hfails, before, file, later, hfiles, ⟨r, hr⟩, ⟨answer, ?_⟩, e', he', ?_⟩
      · rw [← calls_deeds, hdeeds, calls_append]
        exact List.getLast?_concat
      · rw [hx]
        exact hends

end Linting
end Groom
