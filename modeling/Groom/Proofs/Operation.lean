import Groom.Linting
import Groom.Proofs.Flow

/-! What each operation of a run does, as one statement each: the deeds it adds, how it ends, and
the tree and runner state that it leaves. -/
namespace Groom

variable {σ α : Type}

namespace World

/-- A world to which some events are told. -/
def tell (w : World σ) (events : List Event) : World σ :=
  { w with journal := w.journal ++ events }

theorem tell_nil (w : World σ) : w.tell [] = w := by
  rw [tell, List.append_nil]

theorem tell_tell (w : World σ) (events more : List Event) :
    (w.tell events).tell more = w.tell (events ++ more) := by
  simp [tell]

theorem report_tell (w : World σ) (events : List Event) :
    (w.tell events).report = w.report ++ text events :=
  text_append w.journal events

theorem still_tell (w : World σ) (events : List Event) : w.Still (w.tell events) := ⟨rfl, rfl⟩

end World

theorem deeds_map_wrote (pieces : List String) :
    deeds (pieces.map .wrote) = pieces.map .wrote := by
  simp [deeds, Event.isTalk]

theorem text_refused (taken : List String) (part : String) (cause : IoError) :
    text (taken.map .wrote ++ [.refused part cause]) = String.join taken ++ part := by
  have hpart : text [.refused part cause] = part := by simp [text, Event.piece?]
  rw [text_append, text_map_wrote, hpart]

namespace Writer

/-- All of these pieces are taken, one after another. -/
def Takes (writer : Writer) : String → List String → Prop
  | _, [] => True
  | report, piece :: rest => writer.refuse report piece = none ∧ Takes writer (report ++ piece) rest

/-- Some pieces are taken, and the one after them is refused. -/
structure Refuses (writer : Writer) (report : String) (taken : List String) (piece : String)
    (refusal : Refusal piece) : Prop where
  takes : writer.Takes report taken
  refused : writer.refuse (report ++ String.join taken) piece = some refusal

end Writer

namespace Run

/-- A call is one deed, and it leaves what the runner leaves. -/
theorem call_meets (s : Setting σ) (request : Request) (w : World σ) :
    (call s request).Meets w fun ds r w' =>
      ds = [.called request (s.runner request w.runner w.tree).answer] ∧
      r = .ok (s.runner request w.runner w.tree).answer ∧
      w'.tree = (s.runner request w.runner w.tree).tree ∧
      w'.runner = (s.runner request w.runner w.tree).state := by
  let reply := s.runner request w.runner w.tree
  have hshown : (reply.shown.forM fun x => (note (.shown x) : Run σ Unit)).Idle :=
    idle_forM _ _ fun x _ => ⟨[.shown x], rfl, rfl, ⟨(), rfl⟩, rfl, rfl⟩
  let w₁ : World σ := { w with tree := reply.tree, runner := reply.state }
  let told : Run σ (Except IoError Status) := note (.called request reply.answer) >>= fun _ =>
    (reply.shown.forM fun x => note (.shown x)) >>= fun _ => Pure.pure reply.answer
  refine Meets.congr told w₁ ?_ rfl rfl rfl
  refine (note_meets _ w₁).bind ?_ ?_
  · intro ds _ w₂ hmeets
    obtain ⟨rfl, -, hs⟩ := hmeets
    refine hshown.bind_meets fun _ w₃ hs' => .pure ?_
    exact ⟨rfl, rfl, hs'.1.trans hs.1, hs'.2.trans hs.2⟩
  · intro ds e w₂ hmeets
    obtain ⟨-, h, -⟩ := hmeets
    cases h

theorem call_bind_meets {s : Setting σ} {request : Request} {f : Except IoError Status → Run σ α}
    {w : World σ} {post : List Event → Except Error α → World σ → Prop} (reply : Reply σ)
    (hreply : s.runner request w.runner w.tree = reply)
    (hf : ∀ w', w'.tree = reply.tree → w'.runner = reply.state →
      (f reply.answer).Meets w' fun ds r w'' =>
        post (.called request reply.answer :: ds) r w'') :
    (call s request >>= f).Meets w post := by
  subst hreply
  refine (call_meets s request w).bind ?_ ?_
  · intro ds answer w' hmeets
    obtain ⟨rfl, ha, ht, hr⟩ := hmeets
    cases ha
    exact hf w' ht hr
  · intro ds e w' hmeets
    obtain ⟨-, h, -⟩ := hmeets
    cases h

/-- A run that is one call, with what the answer to it means for the run. -/
def IsCall (s : Setting σ) (m : Run σ α) (request : Request)
    (verdict : Except IoError Status → Except Error α) : Prop :=
  ∀ w reply, s.runner request w.runner w.tree = reply →
    m.Meets w fun ds r w' => ds = [.called request reply.answer] ∧ r = verdict reply.answer ∧
      w'.tree = reply.tree ∧ w'.runner = reply.state

theorem capture_meets (s : Setting σ) (file : Path) (w : World σ) :
    (capture s file).Meets w fun ds r w' =>
      ds = [.captured file ((FileSystem.mk w.tree s.cwd).read file)] ∧
      r = ((FileSystem.mk w.tree s.cwd).read file).mapError (.io file) ∧ w.Still w' := by
  refine files_bind_meets ((note_meets _ w).bind ?_ ?_)
  · intro ds _ w' hmeets
    obtain ⟨rfl, -, hs⟩ := hmeets
    cases (FileSystem.mk w.tree s.cwd).read file with
    | ok content => exact .pure ⟨rfl, rfl, hs⟩
    | error cause => exact .throw ⟨rfl, rfl, hs⟩
  · intro ds e w' hmeets
    obtain ⟨-, h, -⟩ := hmeets
    cases h

/-- The writer is asked about a piece in the world that the run is in. -/
theorem writePiece_alike (s : Setting σ) (piece : String) (w : World σ) :
    (writePiece s piece).Alike (match s.writer.refuse w.report piece with
      | none => note (.wrote piece)
      | some refusal => note (.refused refusal.part refusal.cause) >>= fun _ =>
        MonadExcept.throw (.output refusal.cause)) w :=
  ⟨rfl, rfl⟩

theorem writePiece_of_taken {s : Setting σ} {piece : String} {w : World σ}
    (h : s.writer.refuse w.report piece = none) :
    (writePiece s piece).outcome w = .ok () ∧
      (writePiece s piece).after w = w.tell [.wrote piece] := by
  have halike := writePiece_alike s piece w
  rw [h] at halike
  exact halike

theorem writePiece_of_refused {s : Setting σ} {piece : String} {w : World σ}
    {refusal : Refusal piece} (h : s.writer.refuse w.report piece = some refusal) :
    (writePiece s piece).outcome w = .error (.output refusal.cause) ∧
      (writePiece s piece).after w = w.tell [.refused refusal.part refusal.cause] := by
  have halike := writePiece_alike s piece w
  rw [h] at halike
  exact halike

theorem writePiece_meets (s : Setting σ) (piece : String) (w : World σ) :
    (writePiece s piece).Meets w fun ds r w' => w.Still w' ∧
      match s.writer.refuse w.report piece with
      | none => ds = [.wrote piece] ∧ r = .ok ()
      | some refusal => ds = [.refused refusal.part refusal.cause] ∧
          r = .error (.output refusal.cause) := by
  cases h : s.writer.refuse w.report piece with
  | none =>
    obtain ⟨hr, hw⟩ := writePiece_of_taken h
    refine ⟨[.wrote piece], congrArg World.journal hw, ?_, rfl, hr⟩
    rw [hw]
    exact w.still_tell _
  | some refusal =>
    obtain ⟨hr, hw⟩ := writePiece_of_refused h
    refine ⟨[.refused refusal.part refusal.cause], congrArg World.journal hw, ?_, rfl, hr⟩
    rw [hw]
    exact w.still_tell _

def linePieces (pieces : List String) : List String := (pieces ++ ["\n"]).filter (· ≠ "")

/-- Pieces are written one by one, up to the first that is refused, and nothing else happens. -/
theorem writePieces_exactly (s : Setting σ) (pieces : List String) (w : World σ) :
    ((pieces.forM (writePiece s)).outcome w = .ok () ∧
        (pieces.forM (writePiece s)).after w = w.tell (pieces.map .wrote) ∧
        s.writer.Takes w.report pieces) ∨
      ∃ taken piece left refusal, pieces = taken ++ piece :: left ∧
        s.writer.Refuses w.report taken piece refusal ∧
        (pieces.forM (writePiece s)).outcome w = .error (.output refusal.cause) ∧
        (pieces.forM (writePiece s)).after w =
          w.tell (taken.map .wrote ++ [.refused refusal.part refusal.cause]) := by
  -- each piece is judged by the text that was taken before it
  induction pieces generalizing w with
  | nil => exact .inl ⟨rfl, (w.tell_nil).symm, trivial⟩
  | cons piece rest ih =>
    rw [forM_cons, outcome_bind, after_bind]
    cases hp : s.writer.refuse w.report piece with
    | some refusal =>
      obtain ⟨hr, hw⟩ := writePiece_of_refused hp
      rw [hr, hw]
      refine .inr ⟨[], piece, rest, refusal, rfl, ⟨trivial, ?_⟩, rfl, rfl⟩
      simpa [String.join_nil] using hp
    | none =>
      obtain ⟨hr, hw⟩ := writePiece_of_taken hp
      rw [hr, hw]
      have hreport : (w.tell [.wrote piece]).report = w.report ++ piece := by
        simp [World.report_tell, text, Event.piece?]
      have hrest := ih (w.tell [.wrote piece])
      rw [hreport] at hrest
      obtain ⟨hr', hw', htakes⟩ | ⟨taken, p, left, refusal, rfl, hrefuses, hr', hw'⟩ := hrest
      · refine .inl ⟨hr', ?_, hp, htakes⟩
        rw [hw', World.tell_tell]
        rfl
      · refine .inr ⟨piece :: taken, p, left, refusal, rfl, ⟨⟨hp, hrefuses.takes⟩, ?_⟩, hr', ?_⟩
        · rw [String.join_cons, ← String.append_assoc]
          exact hrefuses.refused
        · rw [hw', World.tell_tell]
          rfl

theorem writePieces_meets (s : Setting σ) (pieces : List String) (w : World σ) :
    (pieces.forM (writePiece s)).Meets w fun ds r w' => w.Still w' ∧
      ((ds = pieces.map .wrote ∧ r = .ok () ∧ s.writer.Takes w.report pieces) ∨
        ∃ taken piece left refusal, pieces = taken ++ piece :: left ∧
          s.writer.Refuses w.report taken piece refusal ∧
          ds = taken.map .wrote ++ [.refused refusal.part refusal.cause] ∧
          r = .error (.output refusal.cause)) := by
  obtain ⟨hr, hw, htakes⟩ | ⟨taken, piece, left, refusal, hpieces, hrefuses, hr, hw⟩ :=
    writePieces_exactly s pieces w
  · have hjournal := congrArg World.journal hw
    refine ⟨_, hjournal, ?_, .inl ⟨deeds_map_wrote pieces, hr, htakes⟩⟩
    rw [hw]
    exact w.still_tell _
  · have hjournal := congrArg World.journal hw
    refine ⟨_, hjournal, ?_, .inr ⟨taken, piece, left, refusal, hpieces, hrefuses, ?_, hr⟩⟩
    · rw [hw]
      exact w.still_tell _
    · rw [deeds_append, deeds_map_wrote]
      rfl

theorem writeLine_meets (s : Setting σ) (pieces : List String) (w : World σ) :
    (writeLine s pieces).Meets w fun ds r w' => w.Still w' ∧
      ((ds = (linePieces pieces).map .wrote ∧ r = .ok () ∧
          s.writer.Takes w.report (linePieces pieces)) ∨
        ∃ taken piece left refusal, linePieces pieces = taken ++ piece :: left ∧
          s.writer.Refuses w.report taken piece refusal ∧
          ds = taken.map .wrote ++ [.refused refusal.part refusal.cause] ∧
          r = .error (.output refusal.cause)) :=
  writePieces_meets s (linePieces pieces) w

end Run

namespace Tool

def probeRequest (t : Tool) : Request := ⟨t.program, t.probe, .capture⟩

def workRequest (t : Tool) (target : Path) : Request :=
  ⟨t.program, t.invocationFor target, .inherit⟩

/-- What the answer to a probe means. -/
def probeVerdict (t : Tool) : Except IoError Status → Except Error Unit
  | .ok .success => .ok ()
  | .ok .interrupted => .error .interrupted
  | .ok (.failed _) | .error _ => .error (.toolMissing t.name)

/-- What the answer to real work means where anything but success is an error. -/
def workVerdict (t : Tool) : Except IoError Status → Except Error Unit
  | .ok .success => .ok ()
  | .ok .interrupted => .error .interrupted
  | .ok (.failed code) => .error (.toolInvocation t.name (.failed code))
  | .error cause => .error (.io t.program cause)

theorem probeVerdict_eq_ok {t : Tool} {answer : Except IoError Status} :
    t.probeVerdict answer = .ok () ↔ answer = .ok .success := by
  rcases answer with cause | _ | code | _ <;> simp [probeVerdict]

theorem workVerdict_eq_ok {t : Tool} {answer : Except IoError Status} :
    t.workVerdict answer = .ok () ↔ answer = .ok .success := by
  rcases answer with cause | _ | code | _ <;> simp [workVerdict]

theorem ensureAvailable_meets (s : Setting σ) (t : Tool) (w : World σ) (reply : Reply σ)
    (hreply : s.runner t.probeRequest w.runner w.tree = reply) :
    (t.ensureAvailable s).Meets w fun ds r w' =>
      ds = [.called t.probeRequest reply.answer] ∧ r = t.probeVerdict reply.answer ∧
      w'.tree = reply.tree ∧ w'.runner = reply.state := by
  refine Run.log_bind_meets fun w₁ hs => ?_
  refine Run.call_bind_meets reply (by rw [hs.1, hs.2, ← hreply]; rfl) ?_
  intro w₂ ht hr
  have missing (message : String) :
      (do Run.log .debug .processing message; throw (.toolMissing t.name) : Run σ Unit).Meets w₂
        fun ds r w' => .called t.probeRequest reply.answer :: ds =
            [.called t.probeRequest reply.answer] ∧ r = .error (.toolMissing t.name) ∧
          w'.tree = reply.tree ∧ w'.runner = reply.state :=
    Run.log_bind_meets fun w₃ hs' => .throw ⟨rfl, rfl, hs'.1.trans ht, hs'.2.trans hr⟩
  rcases hanswer : reply.answer with cause | _ | code | _ <;> rw [hanswer] at missing
  · exact missing _
  · exact .pure ⟨rfl, rfl, ht, hr⟩
  · exact missing _
  · exact .throw ⟨rfl, rfl, ht, hr⟩

theorem isCall_probe (s : Setting σ) (t : Tool) :
    Run.IsCall s (t.ensureAvailable s) t.probeRequest t.probeVerdict :=
  fun w reply hreply => t.ensureAvailable_meets s w reply hreply

theorem invoke_meets (s : Setting σ) (t : Tool) (target : Path) (w : World σ) (reply : Reply σ)
    (hreply : s.runner (t.workRequest target) w.runner w.tree = reply) :
    (t.invoke s target).Meets w fun ds r w' =>
      ds = [.called (t.workRequest target) reply.answer] ∧
      r = reply.answer.mapError (.io t.program) ∧
      w'.tree = reply.tree ∧ w'.runner = reply.state := by
  refine Run.log_bind_meets fun w₁ hs => ?_
  refine Run.call_bind_meets reply (by rw [hs.1, hs.2, ← hreply]; rfl) ?_
  intro w₂ ht hr
  cases reply.answer with
  | error cause => exact .throw ⟨rfl, rfl, ht, hr⟩
  | ok status =>
    exact Run.log_bind_meets fun w₃ hs' => .pure ⟨rfl, rfl, hs'.1.trans ht, hs'.2.trans hr⟩

theorem invokeChecked_meets (s : Setting σ) (t : Tool) (target : Path) (w : World σ)
    (reply : Reply σ) (hreply : s.runner (t.workRequest target) w.runner w.tree = reply) :
    (t.invokeChecked s target).Meets w fun ds r w' =>
      ds = [.called (t.workRequest target) reply.answer] ∧ r = t.workVerdict reply.answer ∧
      w'.tree = reply.tree ∧ w'.runner = reply.state := by
  refine (invoke_meets s t target w reply hreply).bind ?_ ?_
  · intro ds status w₁ hmeets
    obtain ⟨rfl, ha, ht, hr⟩ := hmeets
    rw [Run.eq_ok_of_mapError ha]
    cases status with
    | success => exact .pure ⟨rfl, rfl, ht, hr⟩
    | failed code => exact .throw ⟨rfl, rfl, ht, hr⟩
    | interrupted => exact .throw ⟨rfl, rfl, ht, hr⟩
  · intro ds e w₁ hmeets
    obtain ⟨rfl, ha, ht, hr⟩ := hmeets
    obtain ⟨cause, hanswer, rfl⟩ := Run.eq_error_of_mapError ha
    rw [hanswer]
    exact ⟨rfl, rfl, ht, hr⟩

theorem isCall_work (s : Setting σ) (t : Tool) (target : Path) :
    Run.IsCall s (t.invokeChecked s target) (t.workRequest target) t.workVerdict :=
  fun w reply hreply => t.invokeChecked_meets s target w reply hreply

end Tool

namespace Walk

theorem skip_idle (path : Path) (cause : IoError) : (skip path cause : Run σ Unit).Idle :=
  Run.idle_log _ _ _

theorem ask_idle (s : Setting σ) (question : FileSystem → α) :
    (do return question (← Run.files s) : Run σ α).Idle :=
  (Run.idle_files s).bind fun _ => .pure _

theorem offer_idle (s : Setting σ) (selection : Selection) (path : Path)
    {rest : Flow (Run σ) Path} (hrest : rest.Idle) : (offer s selection path rest).Idle := by
  refine ⟨ask_idle s _, fun wanted => ?_⟩
  cases wanted <;> exact hrest

theorem visit_idle (s : Setting σ) (selection : Selection) (depth : Nat) (path : Path) (kind : Kind)
    {rest : Flow (Run σ) Path} (hrest : rest.Idle) :
    (visit s selection depth path kind rest).Idle := by
  induction depth generalizing path kind rest with
  | zero =>
    cases kind with
    | directory => exact offer_idle s selection path ⟨skip_idle _ _, fun _ => hrest⟩
    | file | link | device => exact offer_idle s selection path hrest
  | succ depth ih =>
    cases kind with
    | file | link | device => exact offer_idle s selection path hrest
    | directory =>
      refine ⟨ask_idle s _, fun answer => ?_⟩
      cases answer with
      | error cause => exact offer_idle s selection path ⟨skip_idle _ _, fun _ => hrest⟩
      | ok listing =>
        refine offer_idle s selection path ?_
        induction listing with
        | nil => exact hrest
        | cons entry listing ihl => exact ih _ _ ihl

theorem targets_idle (s : Setting σ) (root : Path) (selection : Selection) :
    (targets s root selection).Idle := by
  refine ⟨ask_idle s _, fun answer => ?_⟩
  have visited (kind : Kind) : (visit s selection Resolution.maxPath root kind .done).Idle :=
    visit_idle s selection _ root kind trivial
  rcases answer with cause | ⟨_, _⟩ | target | entries | _
  · exact ⟨skip_idle _ _, fun _ => trivial⟩
  · exact visited _
  · refine ⟨ask_idle s _, fun answer => ?_⟩
    cases answer with
    | error cause => exact ⟨skip_idle _ _, fun _ => trivial⟩
    | ok node => exact visited _
  · exact visited _
  · exact visited _

end Walk

namespace Linting

open Run (linePieces)

/-- The search for a file by name is one deed, after a walk that only looks around. -/
theorem findUnique_meets (s : Setting σ) (root : Path) (name : String) (w : World σ) :
    (findUnique s root name).Meets w fun ds r w' => w.Still w' ∧
      ∃ found, (Walk.targets s root (.names [name])).toList.outcome w = .ok found ∧
        ds = [.searched name found] ∧ r = match found with
          | [] => .error (.configuration (.notFound name))
          | [path] => .ok path
          | _ => .error (.configuration (.multiple name found)) := by
  refine ((Walk.targets_idle s root (.names [name])).toList_idle w).exactly.bind ?_ ?_
  · intro ds found w₁ hmeets
    obtain ⟨⟨rfl, -, hs⟩, hfound, -⟩ := hmeets
    refine (Run.note_meets _ w₁).bind ?_ ?_
    · intro ds _ w₂ hmeets
      obtain ⟨rfl, -, hs'⟩ := hmeets
      rcases found with _ | ⟨path, _ | ⟨path', rest⟩⟩
      · exact .throw ⟨hs.trans hs', [], hfound, rfl, rfl⟩
      · exact .pure ⟨hs.trans hs', [path], hfound, rfl, rfl⟩
      · refine (Run.idle_forM _ _ fun c => Run.idle_log _ _ _).bind_meets fun _ w₃ hs'' => .throw ?_
        exact ⟨(hs.trans hs').trans hs'', path :: path' :: rest, hfound, rfl, rfl⟩
    · intro ds e w' hmeets
      obtain ⟨-, h, -⟩ := hmeets
      cases h
  · intro ds e w' hmeets
    obtain ⟨⟨-, ⟨found, hfound⟩, -⟩, -, -⟩ := hmeets
    cases hfound

/-- What the status of a tool means for a batch: for the report of the files so far, with the file
of this path added to it. -/
def conclusion (tool : Tool) (policy : FailurePolicy) (r : LintReport) (path : Path) :
    Status → Except Error LintReport
  | .success => .ok { r with checked := r.checked ++ [path] }
  | .interrupted => .error .interrupted
  | .failed code => match policy with
    | .abort => .error (.toolInvocation tool.name (.failed code))
    | .continue => .ok ⟨r.checked ++ [path], r.failed ++ [path]⟩

def verdict (tool : Tool) (policy : FailurePolicy) (r : LintReport) (path : Path) :
    Except IoError Status → Except Error LintReport
  | .ok status => conclusion tool policy r path status
  | .error cause => match policy with
    | .abort => .error (.io tool.program cause)
    -- a tool that cannot be started has failed
    | .continue => conclusion tool policy r path (.failed none)

theorem attempt_meets (s : Setting σ) (tool : Tool) (policy : FailurePolicy) (path file : Path)
    (w : World σ) (reply : Reply σ)
    (hreply : s.runner (tool.workRequest file) w.runner w.tree = reply) :
    (attempt s tool policy path file).Meets w fun ds r w' =>
      ds = [.called (tool.workRequest file) reply.answer] ∧
      r = (match policy, reply.answer with
        | _, .ok status => .ok status
        | .abort, .error cause => .error (.io tool.program cause)
        | .continue, .error _ => .ok (.failed none)) ∧
      w'.tree = reply.tree ∧ w'.runner = reply.state := by
  have hinvoke := Tool.invoke_meets s tool file w reply hreply
  cases policy with
  | abort =>
    refine hinvoke.mono ?_
    intro ds r w' hmeets
    obtain ⟨hd, rfl, hs⟩ := hmeets
    refine ⟨hd, ?_, hs⟩
    cases reply.answer <;> rfl
  | «continue» =>
    refine hinvoke.tryCatch ?_ ?_
    · intro ds status w' hmeets
      obtain ⟨hd, ha, hs⟩ := hmeets
      rw [Run.eq_ok_of_mapError ha] at hd ⊢
      exact ⟨hd, rfl, hs⟩
    · intro ds e w' hmeets
      obtain ⟨rfl, ha, ht, hr⟩ := hmeets
      obtain ⟨cause, hanswer, rfl⟩ := Run.eq_error_of_mapError ha
      rw [hanswer]
      exact Run.log_bind_meets fun w'' hs => .pure ⟨rfl, rfl, hs.1.trans ht, hs.2.trans hr⟩

/-- The check of one file announces it, makes one call, and goes on as the verdict says; unless the
announcement is refused, and then there is no call. -/
theorem checkOne_meets (s : Setting σ) (tool : Tool) (policy : FailurePolicy) (r : LintReport)
    (file path : Path) (w : World σ) (reply : Reply σ)
    (hpath : (FileSystem.mk w.tree s.cwd).absolute file = path)
    (hreply : s.runner (tool.workRequest file) w.runner w.tree = reply) :
    (checkOne s tool policy r file).Meets w fun ds out w' =>
      (ds = (linePieces (line path)).map .wrote ++ [.called (tool.workRequest file) reply.answer] ∧
        out = verdict tool policy r path reply.answer ∧
        w'.tree = reply.tree ∧ w'.runner = reply.state ∧
        s.writer.Takes w.report (linePieces (line path))) ∨
      (w.Still w' ∧ ∃ taken piece left refusal, linePieces (line path) = taken ++ piece :: left ∧
        s.writer.Refuses w.report taken piece refusal ∧
        ds = taken.map .wrote ++ [.refused refusal.part refusal.cause] ∧
        out = .error (.output refusal.cause)) := by
  refine Run.files_bind_meets ?_
  rw [hpath]
  refine (Run.writeLine_meets s (line path) w).bind ?_ ?_
  · intro ds _ w₁ hmeets
    obtain ⟨hs, ⟨rfl, -, htakes⟩ | ⟨_, _, _, _, -, -, -, h⟩⟩ := hmeets
    · refine (attempt_meets s tool policy _ file w₁ reply (by rw [hs.1, hs.2]; exact hreply)).bind
        ?_ ?_
      · intro ds' status w₂ hmeets
        obtain ⟨rfl, ha, ht, hr⟩ := hmeets
        have hverdict : verdict tool policy r path reply.answer =
            conclusion tool policy r path status := by
          cases hanswer : reply.answer <;> rw [hanswer] at ha <;> cases policy <;> cases ha <;> rfl
        rw [hverdict]
        cases status with
        | success => exact .pure (.inl ⟨rfl, rfl, ht, hr, htakes⟩)
        | interrupted => exact .throw (.inl ⟨rfl, rfl, ht, hr, htakes⟩)
        | failed code =>
          cases policy with
          | abort => exact .throw (.inl ⟨rfl, rfl, ht, hr, htakes⟩)
          | «continue» =>
            refine Run.log_bind_meets fun w₃ hs' => .pure (.inl ?_)
            exact ⟨rfl, rfl, hs'.1.trans ht, hs'.2.trans hr, htakes⟩
      · intro ds' e w₂ hmeets
        obtain ⟨rfl, ha, ht, hr⟩ := hmeets
        refine .inl ⟨rfl, ?_, ht, hr, htakes⟩
        cases policy <;> cases hanswer : reply.answer <;> rw [hanswer] at ha <;> cases ha
        rfl
    · cases h
  · intro ds e w₁ hmeets
    obtain ⟨hs, ⟨-, h, -⟩ | ⟨taken, piece, left, refusal, hl, hc, hd, h⟩⟩ := hmeets
    · cases h
    · cases h
      exact .inr ⟨hs, taken, piece, left, refusal, hl, hc, hd, rfl⟩

end Linting

end Groom
