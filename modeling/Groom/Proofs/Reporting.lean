import Groom.Step
import Groom.Proofs.Passes
import Groom.Proofs.Rewriting

/-! How outcomes are reported. The next outcome is asked for only when the last one is recorded, and
the first that is an error, or whose line is refused, is the last that is asked for. -/
namespace Groom

variable {σ α β : Type}

namespace Flow

/-- What comes of asking a flow for its next member. -/
inductive Answer (σ α : Type) : Type 1 where
  | ended
  | failed (e : Error)
  | found (a : α) (rest : Flow (Run σ) α)

/-- Asks a flow for its next member, with the world that the search for it leaves. -/
def pull : Flow (Run σ) α → World σ → Answer σ α × World σ
  | .done, w => (.ended, w)
  | .next a rest, w => (.found a rest, w)
  | .ask question rest, w =>
    match question.outcome w with
    | .ok r => pull (rest r) (question.after w)
    | .error e => (.failed e, question.after w)

/-- A flow whose questions write nothing to the report. -/
def Silent : Flow (Run σ) α → Prop
  | .done => True
  | .next _ rest => rest.Silent
  | .ask question rest => (∀ w, question.Meets w fun ds _ _ => text ds = "") ∧ ∀ r, (rest r).Silent

theorem silent_ofList (as : List α) : (ofList as : Flow (Run σ) α).Silent := by
  induction as with
  | nil => trivial
  | cons a rest ih => exact ih

/-- Asking a silent flow leaves the report as it is, and what is left of the flow is silent. -/
theorem Silent.pull {flow : Flow (Run σ) α} (h : flow.Silent) {w w' : World σ}
    {answer : Answer σ α} (hpull : flow.pull w = (answer, w')) :
    w'.report = w.report ∧ ∀ a rest, answer = .found a rest → rest.Silent := by
  induction flow generalizing w with
  | done =>
    cases hpull
    exact ⟨rfl, nofun⟩
  | next a rest ih =>
    cases hpull
    refine ⟨rfl, ?_⟩
    rintro a rest' hfound
    cases hfound
    exact h
  | ask question rest ih =>
    have hreport : (question.after w).report = w.report := by
      obtain ⟨_, -, htext, hreport⟩ := (h.1 w).report
      rw [hreport, htext, String.append_empty]
    rw [Flow.pull] at hpull
    cases hr : question.outcome w with
    | error e =>
      rw [hr] at hpull
      cases hpull
      exact ⟨hreport, nofun⟩
    | ok r =>
      rw [hr] at hpull
      rw [← hreport]
      exact ih r (h.2 r) hpull

end Flow

namespace Formatting

open Run (linePieces)

/-- The pieces of the line for an outcome; there is none if nothing was changed. -/
def notice (o : FileOutcome) : List String :=
  if o.change = .changed then linePieces (line o.path) else []

/-- Outcomes are asked for one by one, each in the world in which the line for the one before it was
written. -/
inductive Consumes (s : Setting σ) : Flow (Run σ) FileOutcome → World σ → List FileOutcome →
    Flow (Run σ) FileOutcome → World σ → Prop
  | nothing (flow : Flow (Run σ) FileOutcome) (w : World σ) : Consumes s flow w [] flow w
  | outcome {flow rest left : Flow (Run σ) FileOutcome} {o : FileOutcome} {done : List FileOutcome}
      {w w₁ w' : World σ} (hpull : flow.pull w = (.found o rest, w₁))
      (htakes : s.writer.Takes w₁.report (notice o))
      (hrest : Consumes s rest (w₁.tell ((notice o).map .wrote)) done left w') :
      Consumes s flow w (o :: done) left w'

/-- What is asked for last, and how the reporting ends: with the report so far, with the error that
is found, or at a piece of a line that is refused. The text is what was taken of that line. -/
inductive Stops (s : Setting σ) (left : Flow (Run σ) FileOutcome) (w : World σ) (r : FormatReport) :
    String → Except Error FormatReport → World σ → Prop
  | ended {w' : World σ} (hpull : left.pull w = (.ended, w')) : Stops s left w r "" (.ok r) w'
  | failed {w' : World σ} {e : Error} (hpull : left.pull w = (.failed e, w')) :
      Stops s left w r "" (.error e) w'
  | refused {w' : World σ} {o : FileOutcome} {rest : Flow (Run σ) FileOutcome}
      {taken later : List String} {piece : String} {refusal : Refusal piece}
      (hpull : left.pull w = (.found o rest, w')) (hnotice : notice o = taken ++ piece :: later)
      (hrefuses : s.writer.Refuses w'.report taken piece refusal) :
      Stops s left w r (String.join taken ++ refusal.part) (.error (.output refusal.cause))
        (w'.tell (taken.map .wrote ++ [.refused refusal.part refusal.cause]))

theorem Stops.of_pull {s : Setting σ} {flow left : Flow (Run σ) FileOutcome} {w w₁ w' : World σ}
    {r : FormatReport} {cut : String} {out : Except Error FormatReport}
    (hpull : flow.pull w = left.pull w₁) (h : Stops s left w₁ r cut out w') :
    Stops s flow w r cut out w' := by
  cases h with
  | ended h => exact .ended (hpull.trans h)
  | failed h => exact .failed (hpull.trans h)
  | refused h hnotice hrefuses => exact .refused (hpull.trans h) hnotice hrefuses

theorem record_exactly (s : Setting σ) (r : FormatReport) (o : FileOutcome) (w : World σ) :
    ((record s r o).outcome w = .ok (r.add o) ∧
        (record s r o).after w = w.tell ((notice o).map .wrote) ∧
        s.writer.Takes w.report (notice o)) ∨
      ∃ taken piece later refusal, notice o = taken ++ piece :: later ∧
        s.writer.Refuses w.report taken piece refusal ∧
        (record s r o).outcome w = .error (.output refusal.cause) ∧
        (record s r o).after w =
          w.tell (taken.map .wrote ++ [.refused refusal.part refusal.cause]) := by
  unfold record notice
  split
  · have hline := Run.writePieces_exactly s (linePieces (line o.path)) w
    rw [Run.outcome_bind_pure, Run.after_bind_pure]
    obtain ⟨hr, hw, htakes⟩ | ⟨taken, piece, later, refusal, hpieces, hrefuses, hr, hw⟩ := hline
    · refine .inl ⟨?_, hw, htakes⟩
      exact congrArg (Except.map fun _ => r.add o) hr
    · refine .inr ⟨taken, piece, later, refusal, hpieces, hrefuses, ?_, hw⟩
      exact congrArg (Except.map fun _ => r.add o) hr
  · exact .inl ⟨rfl, (w.tell_nil).symm, trivial⟩

theorem foldM_record (s : Setting σ) (flow : Flow (Run σ) FileOutcome) (r : FormatReport)
    (w : World σ) : ∃ done left w₁ cut, Consumes s flow w done left w₁ ∧
      Stops s left w₁ (done.foldl FormatReport.add r) cut ((flow.foldM (record s) r).outcome w)
        ((flow.foldM (record s) r).after w) := by
  induction flow generalizing r w with
  | done => exact ⟨[], .done, w, "", .nothing _ w, .ended rfl⟩
  | next o rest ih =>
    rw [Flow.foldM, Run.outcome_bind, Run.after_bind]
    obtain ⟨hr, hw, htakes⟩ | ⟨taken, piece, later, refusal, hnotice, hrefuses, hr, hw⟩ :=
      record_exactly s r o w
    · rw [hr, hw]
      obtain ⟨done, left, w₁, cut, hconsumes, hstops⟩ :=
        ih (r.add o) (w.tell ((notice o).map .wrote))
      exact ⟨o :: done, left, w₁, cut, .outcome rfl htakes hconsumes, hstops⟩
    · rw [hr, hw]
      exact ⟨[], .next o rest, w, _, .nothing _ w, .refused rfl hnotice hrefuses⟩
  | ask question rest ih =>
    rw [Flow.foldM, Run.outcome_bind, Run.after_bind]
    cases hr : question.outcome w with
    | error e =>
      have hpull : (Flow.ask question rest).pull w = (.failed e, question.after w) := by
        rw [Flow.pull, hr]
      exact ⟨[], .ask question rest, w, "", .nothing _ w, .failed hpull⟩
    | ok a =>
      -- the question belongs to the search for the next outcome
      have hpull : (Flow.ask question rest).pull w = (rest a).pull (question.after w) := by
        rw [Flow.pull, hr]
      obtain ⟨done, left, w₁, cut, hconsumes, hstops⟩ := ih a r (question.after w)
      cases hconsumes with
      | outcome hfound htakes hrest =>
        exact ⟨_, left, w₁, cut, .outcome (hpull.trans hfound) htakes hrest, hstops⟩
      | nothing => exact ⟨[], .ask question rest, w, cut, .nothing _ w, Stops.of_pull hpull hstops⟩

/-- The report on some outcomes. -/
def summary (outcomes : List FileOutcome) : FormatReport where
  processed := outcomes.map (·.path)
  changed := (outcomes.filter (·.change = .changed)).map (·.path)

theorem summary_concat (outcomes : List FileOutcome) (o : FileOutcome) :
    summary (outcomes ++ [o]) = (summary outcomes).add o := by
  by_cases h : o.change = .changed <;> simp [summary, FormatReport.add, h]

theorem foldl_add (outcomes done : List FileOutcome) :
    outcomes.foldl FormatReport.add (summary done) = summary (done ++ outcomes) := by
  induction outcomes generalizing done with
  | nil => rw [List.append_nil]; rfl
  | cons o rest ih => rw [List.foldl_cons, ← summary_concat, ih, List.append_assoc]; rfl

/-- The text of the lines for some outcomes. -/
def announcements (outcomes : List FileOutcome) : String :=
  String.join ((outcomes.filter (·.change = .changed)).map fun o => announcement o.path)

theorem text_notice (o : FileOutcome) :
    text ((notice o).map .wrote) = announcements [o] := by
  rw [text_map_wrote]
  by_cases h : o.change = .changed
  · simp [notice, announcements, h, join_line]
  · simp [notice, announcements, h]

theorem announcements_append (outcomes more : List FileOutcome) :
    announcements (outcomes ++ more) = announcements outcomes ++ announcements more := by
  simp [announcements, String.join_append]

theorem Consumes.report {s : Setting σ} {flow left : Flow (Run σ) FileOutcome}
    {done : List FileOutcome} {w w' : World σ} (h : Consumes s flow w done left w')
    (hsilent : flow.Silent) : w'.report = w.report ++ announcements done ∧ left.Silent := by
  induction h with
  | nothing flow w => exact ⟨String.append_empty.symm, hsilent⟩
  | @outcome flow rest left o done w w₁ w' hpull htakes hrest ih =>
    obtain ⟨hreport, hrestSilent⟩ := hsilent.pull hpull
    obtain ⟨hreport', hleft⟩ := ih (hrestSilent o rest rfl)
    refine ⟨?_, hleft⟩
    have hfirst : announcements (o :: done) = announcements [o] ++ announcements done :=
      announcements_append [o] done
    rw [hreport', World.report_tell, hreport, text_notice, hfirst, String.append_assoc]

theorem Stops.report {s : Setting σ} {left : Flow (Run σ) FileOutcome} {w w' : World σ}
    {r : FormatReport} {cut : String} {out : Except Error FormatReport}
    (h : Stops s left w r cut out w') (hsilent : left.Silent) : w'.report = w.report ++ cut := by
  cases h with
  | ended hpull => rw [(hsilent.pull hpull).1, String.append_empty]
  | failed hpull => rw [(hsilent.pull hpull).1, String.append_empty]
  | refused hpull hnotice hrefuses =>
    rw [World.report_tell, (hsilent.pull hpull).1, text_refused]

/-- The writer takes the line for a file wholly or not at all. -/
def TakesWhole (writer : Writer) (path : Path) : Prop :=
  ∀ report taken piece later (refusal : Refusal piece),
    linePieces (line path) = taken ++ piece :: later →
    writer.Refuses report taken piece refusal → taken = [] ∧ refusal.part = ""

/-- A writer that has its fill of lines takes the line for a file wholly or not at all, unless the
name of the file breaks the line. -/
theorem takesWhole_lines (n : Nat) {path : Path} (hpath : '\n' ∉ path.display.toList) :
    TakesWhole (.lines n) path := by
  intro report taken piece later refusal hline hrefuses
  have hrefused := hrefuses.refused
  dsimp only [Writer.lines] at hrefused
  split at hrefused
  case isFalse => cases hrefused
  case isTrue hfull =>
    cases hrefused
    refine ⟨?_, rfl⟩
    rcases taken with _ | ⟨first, rest⟩
    · rfl
    exfalso
    let front := (line path).filter (· ≠ "")
    have hfront : linePieces (line path) = front ++ ["\n"] := by
      rw [linePieces, List.filter_append]
      rfl
    -- what was taken of the line does not come to its end
    obtain ⟨more, hmore⟩ : ∃ more, front = first :: rest ++ more := by
      obtain ⟨more, hmore, -⟩ | ⟨more, hmore, hend⟩ :=
        List.append_eq_append_iff.mp (hline.symm.trans hfront)
      · exact ⟨more, hmore⟩
      · cases more with
        | nil => exact ⟨[], by simpa using hmore.symm⟩
        | cons last more =>
          have hlength := congrArg List.length hend
          simp at hlength
    have hbreak : '\n' ∉ (String.join (first :: rest)).toList := by
      intro hmem
      have hjoin : String.join front = "Formatted: " ++ path.display := by
        rw [join_filter_ne_empty]
        simp [line, Path.displayPieces, Path.display, Utf8.join_pieces, String.join_cons]
      have hin : '\n' ∈ (String.join front).toList := by
        rw [hmore, String.join_append, String.toList_append]
        exact List.mem_append_left _ hmem
      rw [hjoin, String.toList_append] at hin
      rcases List.mem_append.mp hin with hin | hin
      · revert hin
        decide
      · exact hpath hin
    have hfirst : first ≠ "" := by
      have hmem : first ∈ front := hmore ▸ List.mem_append_left more List.mem_cons_self
      simpa using (List.mem_filter.mp hmem).2
    have hcount : (report ++ String.join (first :: rest)).toList.count '\n' =
        report.toList.count '\n' := by
      rw [String.toList_append, List.count_append, List.count_eq_zero.mpr hbreak, Nat.add_zero]
    have htaken : (Writer.lines n).refuse report first = none := hrefuses.takes.1
    dsimp only [Writer.lines] at htaken
    rw [dif_pos ⟨hcount ▸ hfull.1, hfirst⟩] at htaken
    cases htaken

theorem Stops.cut_eq {s : Setting σ} {left : Flow (Run σ) FileOutcome} {w w' : World σ}
    {r : FormatReport} {cut : String} {out : Except Error FormatReport}
    (h : Stops s left w r cut out w')
    (hwhole : ∀ o rest w₁, left.pull w = (.found o rest, w₁) → TakesWhole s.writer o.path) :
    cut = "" := by
  cases h with
  | ended | failed => rfl
  | @refused w' o rest taken later piece refusal hpull hnotice hrefuses =>
    have hline : linePieces (line o.path) = taken ++ piece :: later := by
      unfold notice at hnotice
      split at hnotice
      · exact hnotice
      · cases List.append_ne_nil_of_right_ne_nil _ (List.cons_ne_nil _ _) hnotice.symm
    obtain ⟨rfl, hpart⟩ := hwhole o rest w' hpull _ _ _ _ refusal hline hrefuses
    rw [hpart]
    rfl

/-- The work on one file that comes to its end, with the outcome that is reported. -/
structure Turn where
  file : Path
  before : Bytes
  after : Bytes
  outcome : FileOutcome

namespace Turn

def work (passes : List Tool) (t : Turn) : List Event :=
  .captured t.file (.ok t.before) ::
    ((requests passes t.file).map Request.success ++ [.captured t.file (.ok t.after)])

/-- The line for a changed file follows the work on it. -/
def deeds (passes : List Tool) (t : Turn) : List Event :=
  t.work passes ++ (notice t.outcome).map .wrote

def Fair (t : Turn) : Prop := t.outcome.change = .changed ↔ t.after ≠ t.before

end Turn

/-- How the work on one file may end all work: it fails, or its line is refused. -/
inductive Breaks (s : Setting σ) (passes : List Tool) : List Event → Error → Prop
  | work {file : Path} {x y : σ × Tree} {ds : List Event} {e : Error}
      (h : Course s passes file x ds (.error e) y) : Breaks s passes ds e
  | line {t : Turn} {taken later : List String} {piece : String} (refusal : Refusal piece)
      (hfair : t.Fair) (hnotice : notice t.outcome = taken ++ piece :: later) :
      Breaks s passes
        (t.work passes ++ (taken.map .wrote ++ [.refused refusal.part refusal.cause]))
        (.output refusal.cause)

theorem turn_meets (s : Setting σ) (passes : List Tool) (r : FormatReport) (file : Path)
    (w : World σ) :
    (processOne s passes file >>= fun o => record s r o).Meets w fun ds out _ =>
      (∃ t : Turn, t.Fair ∧ ds = t.deeds passes ∧ out = .ok (r.add t.outcome)) ∨
      ∃ e, Breaks s passes ds e ∧ out = .error e := by
  refine (processOne_meets_course s passes file w).bind ?_ ?_
  · intro ds o w₁ hcourse
    generalize hout : (.ok o : Except Error FileOutcome) = out at hcourse
    generalize hend : (w₁.runner, w₁.tree) = y at hcourse
    cases hcourse with
    | unreadable | stopped | lost => cases hout
    | @finished before after y change hbefore hpasses hafter hchange =>
      cases hout
      let t : Turn := ⟨file, before, after, ⟨(FileSystem.mk y.2 s.cwd).absolute file, change⟩⟩
      obtain ⟨hr, hw, -⟩ | ⟨taken, piece, later, refusal, hnotice, -, hr, hw⟩ :=
        record_exactly s r t.outcome w₁
      · refine ⟨_, congrArg World.journal hw, .inl ⟨t, hchange, ?_, hr⟩⟩
        rw [deeds_map_wrote]
        rfl
      · refine ⟨_, congrArg World.journal hw, .inr ⟨_, ?_, hr⟩⟩
        have hbreaks : Breaks s passes _ _ := .line refusal (t := t) hchange hnotice
        rw [deeds_append, deeds_map_wrote]
        exact hbreaks
  · intro ds e w₁ hcourse
    exact .inr ⟨e, .work hcourse, rfl⟩

/-- Turns that were taken one after another, with the report on them. -/
def Taken (passes : List Tool) (r : FormatReport) (ds : List Event) : Prop :=
  ∃ turns : List Turn, (∀ t ∈ turns, t.Fair) ∧ ds = turns.flatMap (·.deeds passes) ∧
    r = summary (turns.map (·.outcome))

/-- Turns that were taken one after another, up to work that ends with an error. -/
def Broken (s : Setting σ) (passes : List Tool) (e : Error) (ds : List Event) : Prop :=
  ∃ (turns : List Turn) (last : List Event), (∀ t ∈ turns, t.Fair) ∧
    ds = turns.flatMap (·.deeds passes) ++ last ∧ Breaks s passes last e

/-- The files of a flow are worked on one after another, and the line for each is written before the
work on the next begins. -/
theorem turns_meets (s : Setting σ) (passes : List Tool) {files : Flow (Run σ) Path}
    (hfiles : files.Idle) (w : World σ) :
    (report s (files.mapM (processOne s passes))).Meets w
      (Run.Ends (fun r ds _ => Taken passes r ds) fun e ds _ => Broken s passes e ds) := by
  have hstep (r : FormatReport) (file : Path) (ds : List Event) (w : World σ)
      (htaken : Taken passes r ds) : (processOne s passes file >>= fun o => record s r o).Meets w
        fun ds' out w' => Run.Ends (fun r ds _ => Taken passes r ds)
          (fun e ds _ => Broken s passes e ds) (ds ++ ds') out w' := by
    obtain ⟨turns, hfair, rfl, rfl⟩ := htaken
    refine (turn_meets s passes _ file w).mono fun ds' out w' hturn => ?_
    obtain ⟨t, ht, rfl, rfl⟩ | ⟨e, hbreaks, rfl⟩ := hturn
    · refine ⟨turns ++ [t], ?_, ?_, ?_⟩
      · exact List.forall_mem_append.mpr ⟨hfair, List.forall_mem_singleton.mpr ht⟩
      · simp
      · rw [List.map_append, List.map_singleton, summary_concat]
    · exact ⟨turns, ds', hfair, rfl, hbreaks⟩
  unfold report
  rw [Flow.foldM_mapM]
  exact hfiles.foldM_meets _ _ _ (fun _ _ _ _ _ h => h) hstep {} [] w ⟨[], nofun, rfl, rfl⟩

end Formatting

namespace FormatStep

open Formatting (Breaks Turn summary)

/-- The course of a step: probes, and then the turns of the files, one after another. -/
inductive Course (s : Setting σ) (step : FormatStep) : List Event → Except Error StepReport → Prop
  | unprepared {done later : List Tool} {probe : Tool} {answer : Except IoError Status} {e : Error}
      (hprobes : step.probes = done ++ probe :: later)
      (hverdict : probe.probeVerdict answer = .error e) :
      Course s step
        ((done.map Tool.probeRequest).map Request.success ++ [.called probe.probeRequest answer])
        (.error e)
  | finished {turns : List Turn} (hfair : ∀ t ∈ turns, t.Fair) :
      Course s step
        ((step.probes.map Tool.probeRequest).map Request.success ++
          turns.flatMap (·.deeds step.passes))
        (.ok (.formatted (summary (turns.map (·.outcome)))))
  | stopped {turns : List Turn} {last : List Event} {e : Error} (hfair : ∀ t ∈ turns, t.Fair)
      (hlast : Breaks s step.passes last e) :
      Course s step
        ((step.probes.map Tool.probeRequest).map Request.success ++
          (turns.flatMap (·.deeds step.passes) ++ last))
        (.error e)

theorem meets_course (s : Setting σ) (step : FormatStep) (w : World σ) :
    (step.run s).Meets w fun ds out _ => step.Course s ds out := by
  refine (Run.calls_course (fun probe => probe.isCall_probe s)
    (fun _ _ => Tool.probeVerdict_eq_ok.mp) step.probes w).bind ?_ ?_
  · intro ds _ w₁ hmeets
    obtain ⟨rfl, -, -⟩ | ⟨_, _, _, _, _, _, -, -, -, -, -, hout, -⟩ := hmeets
    · refine Run.log_bind_meets fun w₂ _ => ?_
      refine (Formatting.turns_meets s step.passes (Walk.targets_idle s _ _) w₂).bind ?_ ?_
      · rintro ds r w₃ ⟨turns, hfair, rfl, rfl⟩
        refine .pure ?_
        rw [List.append_nil]
        exact .finished hfair
      · rintro ds e w₃ ⟨turns, last, hfair, rfl, hlast⟩
        exact .stopped hfair hlast
    · cases hout
  · intro ds e w₁ hmeets
    obtain ⟨-, hout, -⟩ |
      ⟨done, probe, later, _, _, e', hprobes, -, -, hverdict, rfl, hout, -⟩ := hmeets
    · cases hout
    · cases hout
      exact .unprepared hprobes hverdict

end FormatStep

namespace Formatting

/-- Outcomes are asked for one by one, and each is recorded before the next is asked for: the
reporting ends when there are no more, at the first error, or at the first line that is refused,
and it has written the lines for the changed files before. So in a step that formats files the line
for a file that was changed is written before any call for the next one. -/
theorem report_course (s : Setting σ) (outcomes : Flow (Run σ) FileOutcome) (w : World σ) :
    (∃ done left w₁ cut, Consumes s outcomes w done left w₁ ∧
      Stops s left w₁ (summary done) cut ((report s outcomes).outcome w)
        ((report s outcomes).after w) ∧
      (outcomes.Silent →
        ((report s outcomes).after w).report = w.report ++ announcements done ++ cut) ∧
      ((∀ o rest w₂, left.pull w₁ = (.found o rest, w₂) → TakesWhole s.writer o.path) →
        cut = "")) ∧
    ∀ step : FormatStep, (step.run s).Meets w fun ds out _ => step.Course s ds out := by
  refine ⟨?_, fun step => step.meets_course s w⟩
  obtain ⟨done, left, w₁, cut, hconsumes, hstops⟩ := foldM_record s outcomes {} w
  have hsummary : done.foldl FormatReport.add {} = summary done := foldl_add done []
  rw [hsummary] at hstops
  change Stops s left w₁ _ cut ((report s outcomes).outcome w)
    ((report s outcomes).after w) at hstops
  refine ⟨done, left, w₁, cut, hconsumes, hstops, ?_, hstops.cut_eq⟩
  intro hsilent
  obtain ⟨hreport, hleft⟩ := hconsumes.report hsilent
  rw [hstops.report hleft, hreport]

theorem Consumes.ofList {s : Setting σ} {outcomes done : List FileOutcome}
    {left : Flow (Run σ) FileOutcome} {w w' : World σ}
    (h : Consumes s (.ofList outcomes) w done left w') :
    ∃ later, outcomes = done ++ later ∧ left = .ofList later := by
  induction outcomes generalizing done w with
  | nil =>
    cases h with
    | nothing => exact ⟨[], rfl, rfl⟩
    | outcome hpull => cases hpull
  | cons o rest ih =>
    cases h with
    | nothing => exact ⟨o :: rest, rfl, rfl⟩
    | outcome hpull _ hrest =>
      cases hpull
      obtain ⟨later, rfl, hleft⟩ := ih hrest
      exact ⟨later, rfl, hleft⟩

/-- Two of three files were changed, and the report has room for one line. -/
theorem report_course_of_one_line :
    let s : Setting Unit := ⟨⟨[], 0⟩, fun _ _ tree => ⟨.ok .success, [], (), tree⟩, .lines 1⟩
    let outcomes : List FileOutcome :=
      [⟨⟨[97]⟩, .changed⟩, ⟨⟨[98]⟩, .unchanged⟩, ⟨⟨[99]⟩, .changed⟩]
    let w : World Unit := ⟨⟨[], []⟩, (), []⟩
    (report s (.ofList outcomes)).outcome w = .error (.output (.other "broken pipe")) ∧
    ∃ done left w₁, Consumes s (.ofList outcomes) w done left w₁ ∧
      ((report s (.ofList outcomes)).after w).report = announcements done := by
  intro s outcomes w
  refine ⟨Run.stop_eq_some_iff.mp (by decide +kernel), ?_⟩
  obtain ⟨⟨done, left, w₁, cut, hconsumes, -, htext, hcut⟩, -⟩ :=
    report_course s (.ofList outcomes) w
  have hwhole : ∀ o ∈ outcomes, TakesWhole s.writer o.path := by
    have hpath : ∀ o ∈ outcomes, '\n' ∉ o.path.display.toList := by decide +kernel
    exact fun o ho => takesWhole_lines 1 (hpath o ho)
  obtain ⟨later, houtcomes, rfl⟩ := hconsumes.ofList
  have hnone : cut = "" := by
    refine hcut fun o rest w₂ hpull => hwhole o ?_
    cases later with
    | nil => cases hpull
    | cons first later =>
      cases hpull
      exact houtcomes ▸ List.mem_append_right done List.mem_cons_self
  refine ⟨done, _, w₁, hconsumes, ?_⟩
  rw [htext (Flow.silent_ofList outcomes), hnone, String.append_empty]
  exact String.empty_append

end Formatting

end Groom
