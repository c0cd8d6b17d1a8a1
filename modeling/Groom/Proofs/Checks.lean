import Groom.Proofs.Operation
import Groom.Proofs.Rewriting

/-! A batch of checks, file by file. What the answers of the runner would be is fixed before the
batch: each file is attempted in the tree that the attempts before it leave. What the batch does is
then read off its attempts, up to the first one that ends it. -/
namespace Groom

variable {σ : Type}

theorem Writer.takes_append {writer : Writer} {report : String} {pieces more : List String} :
    writer.Takes report (pieces ++ more) ↔
      writer.Takes report pieces ∧ writer.Takes (report ++ String.join pieces) more := by
  induction pieces generalizing report with
  | nil => simp [Takes, String.join_nil]
  | cons piece rest ih =>
    simp only [List.cons_append, Takes, ih, String.join_cons, String.append_assoc, and_assoc]

/-- Pieces that are taken may stand before those of which one is refused. -/
theorem Writer.Refuses.after {writer : Writer} {report : String} {pieces taken : List String}
    {piece : String} {refusal : Refusal piece} (hpieces : writer.Takes report pieces)
    (h : writer.Refuses (report ++ String.join pieces) taken piece refusal) :
    writer.Refuses report (pieces ++ taken) piece refusal where
  takes := takes_append.mpr ⟨hpieces, h.takes⟩
  refused := by
    rw [String.join_append, ← String.append_assoc]
    exact h.refused

namespace Linting

open Run (linePieces)

/-- The check of one file: the path under which it is announced and reported, and the answer to the
call that is made for it. -/
structure Attempt where
  file : Path
  path : Path
  answer : Except IoError Status

/-- The attempts of a batch, each in the tree that those before it leave. -/
def attempts (s : Setting σ) (tool : Tool) : List Path → σ → Tree → List Attempt
  | [], _, _ => []
  | file :: rest, state, tree =>
    let reply := s.runner (tool.workRequest file) state tree
    ⟨file, (FileSystem.mk tree s.cwd).absolute file, reply.answer⟩ ::
      attempts s tool rest reply.state reply.tree

theorem files_of_attempts (s : Setting σ) (tool : Tool) (files : List Path) (state : σ)
    (tree : Tree) : (attempts s tool files state tree).map (·.file) = files := by
  induction files generalizing state tree with
  | nil => rfl
  | cons file rest ih => simp [attempts, ih]

namespace Attempt

/-- The pieces of the line that announces an attempt. -/
def record (a : Attempt) : List String := linePieces (line a.path)

/-- An attempt is announced, and then it is one call. -/
def deeds (tool : Tool) (a : Attempt) : List Event :=
  a.record.map .wrote ++ [.called (tool.workRequest a.file) a.answer]

def succeeded (a : Attempt) : Bool := a.answer matches .ok .success

/-- The tool found something, or could not be started. -/
def failed (a : Attempt) : Bool :=
  match a.answer with
  | .ok (.failed _) | .error _ => true
  | .ok .success | .ok .interrupted => false

/-- The error with which an attempt ends its batch, if it does. -/
def stop? (tool : Tool) (policy : FailurePolicy) (a : Attempt) : Option Error :=
  match a.answer, policy with
  | .ok .interrupted, _ => some .interrupted
  | .ok (.failed code), .abort => some (.toolInvocation tool.name (.failed code))
  | .error cause, .abort => some (.io tool.program cause)
  | .ok .success, _ | .ok (.failed _), .continue | .error _, .continue => none

theorem text_deeds (tool : Tool) (a : Attempt) : text (a.deeds tool) = String.join a.record := by
  rw [deeds, text_append, text_map_wrote]
  exact String.append_empty

theorem join_record (a : Attempt) :
    String.join a.record = "Checking " ++ a.path.display ++ " ...\n" := by
  rw [record, linePieces, Formatting.join_filter_ne_empty]
  simp [line, Path.displayPieces, Path.display, Utf8.join_pieces, String.join_cons,
    String.join_append, String.append_assoc]

end Attempt

/-- The paths of the attempts that failed. -/
def failures (all : List Attempt) : List Path := (all.filter (·.failed)).map (·.path)

theorem failures_cons (a : Attempt) (all : List Attempt) :
    failures (a :: all) = failures [a] ++ failures all := by
  unfold failures
  rw [← List.map_append, ← List.filter_append]
  rfl

/-- What a batch comes to if none of its attempts ends it. -/
def total (all : List Attempt) : Except Error LintReport :=
  if all.all (·.succeeded) then .ok ⟨all.map (·.path), []⟩
  else .error (.checksFailed (failures all))

/-- The course of a batch: its deeds and its outcome, which is `finish` if nothing ends it before.
-/
inductive Course (writer : Writer) (tool : Tool) (policy : FailurePolicy) (report : String)
    (all : List Attempt) (finish : Except Error LintReport) :
    List Event → Except Error LintReport → Prop
  | finished (hall : ∀ a ∈ all, a.stop? tool policy = none)
      (htakes : writer.Takes report (all.flatMap Attempt.record)) :
      Course writer tool policy report all finish (all.flatMap (·.deeds tool)) finish
  /-- The last attempt ends the batch. -/
  | stopped {done later : List Attempt} {last : Attempt} {e : Error}
      (hall : all = done ++ last :: later) (hdone : ∀ a ∈ done, a.stop? tool policy = none)
      (hlast : last.stop? tool policy = some e)
      (htakes : writer.Takes report ((done ++ [last]).flatMap Attempt.record)) :
      Course writer tool policy report all finish ((done ++ [last]).flatMap (·.deeds tool))
        (.error e)
  /-- The line that announces the next attempt is refused, and no call is made for it. -/
  | refused {done later : List Attempt} {next : Attempt} {taken left : List String}
      {piece : String} {refusal : Refusal piece} (hall : all = done ++ next :: later)
      (hdone : ∀ a ∈ done, a.stop? tool policy = none)
      (hrecord : next.record = taken ++ piece :: left)
      (hrefuses : writer.Refuses report (done.flatMap Attempt.record ++ taken) piece refusal) :
      Course writer tool policy report all finish
        (done.flatMap (·.deeds tool) ++ taken.map .wrote ++
          [.refused refusal.part refusal.cause])
        (.error (.output refusal.cause))

variable {writer : Writer} {tool : Tool} {policy : FailurePolicy}

theorem Course.cons {report : String} {a : Attempt} {all : List Attempt} {ds : List Event}
    {finish out : Except Error LintReport} (ha : a.stop? tool policy = none)
    (htakes : writer.Takes report a.record)
    (h : Course writer tool policy (report ++ String.join a.record) all finish ds out) :
    Course writer tool policy report (a :: all) finish (a.deeds tool ++ ds) out := by
  cases h with
  | finished hall htakes' =>
    have hcons : ∀ b ∈ a :: all, b.stop? tool policy = none := List.forall_mem_cons.mpr ⟨ha, hall⟩
    exact .finished hcons (Writer.takes_append.mpr ⟨htakes, htakes'⟩)
  | @stopped done later last e hall hdone hlast htakes' =>
    have hcons : ∀ b ∈ a :: done, b.stop? tool policy = none := List.forall_mem_cons.mpr ⟨ha, hdone⟩
    exact .stopped (congrArg (a :: ·) hall) hcons hlast
      (Writer.takes_append.mpr ⟨htakes, htakes'⟩)
  | @refused done later next taken left piece refusal hall hdone hrecord hrefuses =>
    have hcons : ∀ b ∈ a :: done, b.stop? tool policy = none := List.forall_mem_cons.mpr ⟨ha, hdone⟩
    have hrefuses' : writer.Refuses report ((a :: done).flatMap Attempt.record ++ taken) piece
        refusal := by
      rw [List.flatMap_cons, List.append_assoc]
      exact hrefuses.after htakes
    have hall' : a :: all = a :: done ++ next :: later := congrArg (a :: ·) hall
    simpa only [List.flatMap_cons, List.append_assoc] using
      @Course.refused _ _ _ _ _ finish _ _ _ _ _ _ _ hall' hcons hrecord hrefuses'

/-- What an attempt means for a batch: the error that ends it, or the report with one more file. -/
theorem verdict_eq (tool : Tool) (policy : FailurePolicy) (r : LintReport) (a : Attempt) :
    verdict tool policy r a.path a.answer = match a.stop? tool policy with
      | some e => .error e
      | none => .ok ⟨r.checked ++ [a.path], r.failed ++ failures [a]⟩ := by
  obtain ⟨file, path, answer⟩ := a
  rcases answer with cause | _ | code | _ <;> cases policy <;>
    simp [verdict, conclusion, Attempt.stop?, failures, Attempt.failed]

theorem checks_course (s : Setting σ) (tool : Tool) (policy : FailurePolicy) (files : List Path)
    (r : LintReport) (w : World σ) :
    let all := attempts s tool files w.runner w.tree
    ((Flow.ofList files).foldM (checkOne s tool policy) r).Meets w fun ds out _ =>
      Course s.writer tool policy w.report all
        (.ok ⟨r.checked ++ all.map (·.path), r.failed ++ failures all⟩) ds out := by
  -- the report, and the text before, are those of the files so far
  induction files generalizing r w with
  | nil =>
    refine .pure ?_
    simpa [attempts, failures] using
      @Course.finished s.writer tool policy w.report [] (.ok r) (by simp) trivial
  | cons file rest ih =>
    intro all
    let reply := s.runner (tool.workRequest file) w.runner w.tree
    let a : Attempt := ⟨file, (FileSystem.mk w.tree s.cwd).absolute file, reply.answer⟩
    let later := attempts s tool rest reply.state reply.tree
    have hverdict := verdict_eq tool policy r a
    refine (checkOne_meets s tool policy r file a.path w reply rfl rfl).report.bind ?_ ?_
    · intro ds r' w₁ hmeets
      obtain ⟨⟨hds, hr', htree, hrunner, htakes⟩ | ⟨-, _, _, _, _, -, -, -, h⟩, hreport⟩ := hmeets
      · cases hstop : a.stop? tool policy with
        | some e =>
          rw [hstop] at hverdict
          cases hr'.trans hverdict
        | none =>
          rw [hstop] at hverdict
          obtain rfl := Except.ok.inj (hr'.trans hverdict)
          refine (ih _ w₁).mono fun ds' out w₂ hcourse => ?_
          obtain rfl : ds = a.deeds tool := hds
          rw [hreport, htree, hrunner, a.text_deeds] at hcourse
          have hpaths : all.map (·.path) = [a.path] ++ later.map (·.path) := rfl
          have hfailures : failures all = failures [a] ++ failures later := failures_cons a later
          rw [hpaths, hfailures, ← List.append_assoc, ← List.append_assoc]
          exact hcourse.cons hstop htakes
      · cases h
    · intro ds e w₁ hmeets
      obtain ⟨⟨rfl, he, -, -, htakes⟩ |
        ⟨-, taken, piece, left, refusal, hpieces, hrefuses, rfl, he⟩, -⟩ := hmeets
      · cases hstop : a.stop? tool policy with
        | none =>
          rw [hstop] at hverdict
          cases he.trans hverdict
        | some e' =>
          rw [hstop] at hverdict
          cases he.trans hverdict
          have hcourse : Course s.writer tool policy w.report (a :: later)
              (.ok ⟨r.checked ++ all.map (·.path), r.failed ++ failures all⟩)
              (a.deeds tool ++ []) (.error e) := by
            refine .stopped (List.nil_append _).symm nofun hstop ?_
            exact Writer.takes_append.mpr ⟨htakes, trivial⟩
          rw [List.append_nil] at hcourse
          exact hcourse
      · cases he
        have hall : all = [] ++ a :: later := rfl
        exact .refused hall nofun hpieces hrefuses

/-- A course that ends with an error does not come to its finish, whatever that would be. -/
theorem Course.of_error {report : String} {all : List Attempt} {ds : List Event} {e : Error}
    {r : LintReport} (finish : Except Error LintReport)
    (h : Course writer tool policy report all (.ok r) ds (.error e)) :
    Course writer tool policy report all finish ds (.error e) := by
  generalize hout : (.error e : Except Error LintReport) = out at h
  cases h with
  | finished => cases hout
  | stopped hall hdone hlast htakes =>
    cases hout
    exact .stopped hall hdone hlast htakes
  | refused hall hdone hrecord hrefuses =>
    cases hout
    exact .refused hall hdone hrecord hrefuses

/-- If no attempt ended the batch, each of them succeeded or failed. -/
theorem total_eq {all : List Attempt} (hall : ∀ a ∈ all, a.stop? tool policy = none) :
    total all = if failures all = [] then .ok ⟨all.map (·.path), failures all⟩
      else .error (.checksFailed (failures all)) := by
  have hanswer : ∀ a ∈ all, a.succeeded = !a.failed := by
    rintro ⟨file, path, answer⟩ ha
    have hstop := hall _ ha
    rcases answer with cause | _ | code | _ <;> first | rfl | cases hstop
  have hnone : all.all (·.succeeded) = true ↔ failures all = [] := by
    simp only [failures, List.map_eq_nil_iff, List.filter_eq_nil_iff, List.all_eq_true]
    refine forall₂_congr fun a ha => ?_
    rw [hanswer a ha, Bool.not_eq_true, Bool.not_eq_true']
  by_cases h : failures all = []
  · rw [total, if_pos (hnone.mpr h), if_pos h, h]
  · rw [total, if_neg (mt hnone.mp h), if_neg h]

/-- A batch takes its files in order, and each is announced under its absolute form and then
checked with one call. It stops at the first that cannot be announced, whose check is interrupted,
or, if failures are not collected, that fails; there it is at its end. Otherwise all files are
attempted, and the failures are reported together. -/
theorem checkBatch_course (s : Setting σ) (tool : Tool) (policy : FailurePolicy)
    (files : List Path) (w : World σ) :
    let all := attempts s tool files w.runner w.tree
    all.map (·.file) = files ∧
    (∀ a : Attempt, String.join a.record = "Checking " ++ a.path.display ++ " ...\n") ∧
    (checkBatch s tool policy (.ofList files)).Meets w fun ds out _ =>
      Course s.writer tool policy w.report all (total all) ds out := by
  intro all
  refine ⟨files_of_attempts s tool files w.runner w.tree, Attempt.join_record, ?_⟩
  refine (checks_course s tool policy files {} w).bind ?_ ?_
  · intro ds r w₁ hcourse
    generalize hout : (.ok r : Except Error LintReport) = out at hcourse
    cases hcourse with
    | stopped | refused => cases hout
    | finished hall htakes =>
      have hr : r = ⟨all.map (·.path), failures all⟩ := Except.ok.inj hout
      have htotal : total all = if failures all = [] then .ok r
          else .error (.checksFailed (failures all)) := hr ▸ total_eq hall
      have hfinished : Course s.writer tool policy w.report all (total all)
          (all.flatMap (·.deeds tool)) (total all) := .finished hall htakes
      have hfailed : r.failed = failures all := congrArg LintReport.failed hr
      rw [hfailed]
      split
      · rename_i hnone
        refine .pure ?_
        rw [List.append_nil, ← (htotal.trans (if_pos hnone))]
        exact hfinished
      · rename_i hsome
        refine .throw ?_
        rw [List.append_nil, ← (htotal.trans (if_neg hsome))]
        exact hfinished
  · intro ds e w₁ hcourse
    exact hcourse.of_error (total all)

end Linting

end Groom
