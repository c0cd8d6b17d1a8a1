import Mathlib.Data.List.Forall2
import Groom.Runner.Stub
import Groom.Proofs.Entries
import Groom.Proofs.Naming
import Groom.Proofs.Writing

/-! What a stub does over a whole history, in which others may change the tree between its calls. It
records every call as it is shown, and a call does what is set for it: at most it gives the file
that its last argument leads to the content that is due. -/
namespace Groom.Stub

/-- A request as it is recorded: the program and each argument as they are shown. -/
structure Recorded (request : Request) (call : Call) : Prop where
  program : Utf8.Shows request.program.bytes call.program
  args : List.Forall₂ Utf8.Shows request.args call.args
  output : call.output = request.output

theorem recorded_ofRequest (request : Request) : Recorded request (.ofRequest request) := by
  refine ⟨Utf8.shows_lossy request.program.bytes, ?_, rfl⟩
  show List.Forall₂ _ request.args (request.args.map Utf8.lossy)
  rw [List.forall₂_map_right_iff, List.forall₂_same]
  exact fun bytes _ => Utf8.shows_lossy bytes

/-- A call works on a file of this name: its last argument, taken as a path, ends in it. -/
def Call.Names (call : Call) (name : String) : Prop :=
  ∃ last, call.args.getLast? = some last ∧
    Path.EndsIn ⟨Bytes.ofString last⟩ (Bytes.ofString name)

theorem Call.targetName_eq_some_iff {call : Call} {name : String} :
    call.targetName = some name ↔ call.Names name := by
  rw [targetName, Option.bind_eq_some_iff]
  refine exists_congr fun last => and_congr_right fun _ => ?_
  rw [Option.map_eq_some_iff]
  constructor
  · rintro ⟨bytes, hbytes, rfl⟩
    have hends := Path.fileName?_eq_some_iff.mp hbytes
    obtain ⟨text, rfl⟩ := Path.EndsIn.exists_text hends
    rwa [Utf8.lossy_ofString]
  · intro hends
    exact ⟨_, Path.fileName?_eq_some_iff.mpr hends, Utf8.lossy_ofString name⟩

/-- What is set for a call: by its program, else by the name of its file, else to keep all. -/
inductive Plan.Sets (plan : Plan) (call : Call) : Behavior → Prop where
  | program {b : Behavior} (h : (call.program, b) ∈ plan.byProgram.entries) : plan.Sets call b
  | file {b : Behavior} {name : String} (h : ∀ b, (call.program, b) ∉ plan.byProgram.entries)
      (hname : call.Names name) (hb : (name, b) ∈ plan.byFile.entries) : plan.Sets call b
  | nothing (h : ∀ b, (call.program, b) ∉ plan.byProgram.entries)
      (hfile : ∀ name, call.Names name → ∀ b, (name, b) ∉ plan.byFile.entries) :
      plan.Sets call .keep

theorem Plan.sets_behavior (plan : Plan) (call : Call) : plan.Sets call (plan.behavior call) := by
  cases hp : plan.byProgram.get? call.program with
  | some b =>
    have hb : plan.behavior call = b := by simp [behavior, hp]
    rw [hb]
    exact .program (StringMap.mem_entries_iff.mpr hp)
  | none =>
    have hnone : ∀ b, (call.program, b) ∉ plan.byProgram.entries := by
      intro b hb
      cases hp.symm.trans (StringMap.mem_entries_iff.mp hb)
    cases hf : call.targetName.bind plan.byFile.get? with
    | some b =>
      have hb : plan.behavior call = b := by simp [behavior, hp, hf]
      obtain ⟨name, hname, hget⟩ := Option.bind_eq_some_iff.mp hf
      rw [hb]
      exact .file hnone (Call.targetName_eq_some_iff.mp hname) (StringMap.mem_entries_iff.mpr hget)
    | none =>
      have hb : plan.behavior call = .keep := by simp [behavior, hp, hf]
      rw [hb]
      refine .nothing hnone fun name hname b hmem => ?_
      have hget := Option.bind_eq_none_iff.mp hf name (Call.targetName_eq_some_iff.mpr hname)
      cases hget.symm.trans (StringMap.mem_entries_iff.mp hmem)

/-- The content that is due for a file, given what it holds if it is there. Only a text can be added
to. -/
inductive Behavior.Makes : Behavior → Option Bytes → Bytes → Prop where
  | replace (content : String) (old : Option Bytes) :
      Makes (.replace content) old (Bytes.ofString content)
  | append (suffix text : String) :
      Makes (.append suffix) (some (Bytes.ofString text))
        (Bytes.ofString text ++ Bytes.ofString suffix)

/-- How a tool that works on this file answers, and the tree that it leaves. -/
inductive Outcome (cwd : Working) (t : Tree) (file : Option Path) :
    Behavior → Except IoError Status → Tree → Prop where
  | keep : Outcome cwd t file .keep (.ok .success) t
  | fail (code : Int) : Outcome cwd t file (.fail code) (.ok (.failed (some code))) t
  | interrupt : Outcome cwd t file .interrupt (.ok .interrupted) t
  /-- No file is named. -/
  | idle {b : Behavior} (hb : ∃ old content, b.Makes old content) (hfile : file = none) :
      Outcome cwd t file b (.ok .success) t
  /-- There is no file for which something is due, and none may be created. -/
  | refused {b : Behavior} {p : Path} (hb : ∃ old content, b.Makes old content)
      (hfile : file = some p) (cause : IoError)
      (hthere : ∀ loc old x content, (FileSystem.mk t cwd).LeadsTo p loc →
        t.node? loc = some (.file old x) → ¬b.Makes (some old) content)
      (hmissing : ∀ dir name content,
        (FileSystem.mk t cwd).resolve .create p = .ok (.absent dir name) → ¬b.Makes none content) :
      Outcome cwd t file b (.error cause) t
  /-- A device takes what is written to it and keeps nothing. -/
  | swallowed {b : Behavior} {p : Path} (hb : ∃ content, b.Makes (some []) content)
      (hfile : file = some p) (hdevice : (FileSystem.mk t cwd).status p = .ok .device) :
      Outcome cwd t file b (.ok .success) t
  | changed {b : Behavior} {p : Path} {loc : Location} {old content : Bytes} {x : Bool} {t' : Tree}
      (hb : b.Makes (some old) content) (hfile : file = some p)
      (hbefore : (FileSystem.mk t cwd).LeadsTo p loc) (hold : t.node? loc = some (.file old x))
      (hafter : (FileSystem.mk t' cwd).LeadsTo p loc) (hput : t.PutAt t' loc (.file content x)) :
      Outcome cwd t file b (.ok .success) t'
  | created {b : Behavior} {p : Path} {loc : Location} {content : Bytes} {t' : Tree}
      (hb : b.Makes none content) (hfile : file = some p) (hold : t.node? loc = none)
      (hafter : (FileSystem.mk t' cwd).LeadsTo p loc)
      (hput : t.PutAt t' loc (.file content false)) : Outcome cwd t file b (.ok .success) t'

/-- How a write ends, if the content is the one that is due. -/
theorem outcome_write (t : Tree) (cwd : Working) (p : Path) {b : Behavior} (content : Bytes)
    (hb : ∃ old content, b.Makes old content)
    (hfile : ∀ old x, (FileSystem.mk t cwd).status p = .ok (.file old x) →
      b.Makes (some old) content)
    (hdevice : (FileSystem.mk t cwd).status p = .ok .device → b.Makes (some []) content)
    (hmissing : (FileSystem.mk t cwd).status p = .error .notFound → b.Makes none content) :
    match (FileSystem.mk t cwd).write p content with
    | .ok fs => Outcome cwd t (some p) b (.ok .success) fs.tree
    | .error cause => Outcome cwd t (some p) b (.error cause) t := by
  obtain ⟨cause, hw, hf, hnone⟩ | ⟨hw, hs⟩ | ⟨t', loc, old, x, hw, hbefore, hafter, hold, hput⟩ |
    ⟨t', loc, hw, hs, hafter, hold, hput⟩ := FileSystem.write_cases t cwd p content
  all_goals rw [hw]
  · refine .refused hb rfl cause (fun loc old x _ hleads hold _ => ?_)
      fun dir name _ hr _ => hnone dir name hr
    have hthere : (FileSystem.mk t cwd).isFile p = true := by
      simp only [FileSystem.isFile, FileSystem.status_of_leadsTo hleads hold]
    exact Bool.false_ne_true (hf.symm.trans hthere)
  · exact .swallowed ⟨content, hdevice hs⟩ rfl hs
  · exact .changed (hfile old x (FileSystem.status_of_leadsTo hbefore hold)) rfl hbefore hold hafter
      hput
  · exact .created (hmissing hs) rfl hold hafter hput

/-- A tool does what its behavior says, and no more. -/
theorem outcome_act (t : Tree) (cwd : Working) (file : Option Path) (b : Behavior) :
    Outcome cwd t file b (b.act ⟨t, cwd⟩ file).1 (b.act ⟨t, cwd⟩ file).2.tree := by
  cases b with
  | keep => exact .keep
  | fail code => exact .fail code
  | interrupt => exact .interrupt
  | replace content =>
    have hb (old : Option Bytes) : (Behavior.replace content).Makes old (Bytes.ofString content) :=
      .replace content old
    cases file with
    | none => exact .idle ⟨none, _, hb none⟩ rfl
    | some p =>
      have hwrite := outcome_write t cwd p (Bytes.ofString content) ⟨none, _, hb none⟩
        (fun old _ _ => hb (some old)) (fun _ => hb (some [])) fun _ => hb none
      simp only [Behavior.act]
      split at hwrite <;> rename_i hw <;> simpa only [hw] using hwrite
  | append suffix =>
    have hb (text : String) : (Behavior.append suffix).Makes (some (Bytes.ofString text))
        (Bytes.ofString (text ++ suffix)) := by
      rw [Bytes.ofString_append]
      exact .append suffix text
    cases file with
    | none => exact .idle ⟨_, _, hb ""⟩ rfl
    | some p =>
      simp only [Behavior.act]
      cases hread : (FileSystem.mk t cwd).readText p with
      | error cause =>
        refine .refused ⟨_, _, hb ""⟩ rfl cause (fun loc old x content hleads hold hmakes => ?_)
          fun dir name content _ hmakes => ?_
        · cases hmakes with
          | append suffix text =>
            have hs := FileSystem.status_of_leadsTo hleads hold
            cases hread.symm.trans (FileSystem.readText_eq_ok_iff.mpr (.inr ⟨x, hs⟩))
        · cases hmakes
      | ok text =>
        -- between reading and writing the file stays what it is
        have hthere := FileSystem.readText_eq_ok_iff.mp hread
        have hfile : ∀ old x, (FileSystem.mk t cwd).status p = .ok (.file old x) →
            (Behavior.append suffix).Makes (some old) (Bytes.ofString (text ++ suffix)) := by
          intro old x hs
          obtain ⟨hs', -⟩ | ⟨x', hs'⟩ := hthere <;> cases hs.symm.trans hs'
          exact hb text
        have hdevice : (FileSystem.mk t cwd).status p = .ok .device →
            (Behavior.append suffix).Makes (some []) (Bytes.ofString (text ++ suffix)) := by
          intro hs
          obtain ⟨-, rfl⟩ | ⟨x', hs'⟩ := hthere
          · exact hb ""
          · cases hs.symm.trans hs'
        have hwrite := outcome_write t cwd p _ ⟨_, _, hb text⟩ hfile hdevice fun hs => by
          obtain ⟨hs', -⟩ | ⟨x', hs'⟩ := hthere <;> cases hs.symm.trans hs'
        dsimp only
        split at hwrite <;> rename_i hw <;> simpa only [hw] using hwrite

/-- One call: what was requested, the tree that it found, and the reply. -/
structure Turn where
  request : Request
  before : Tree
  reply : Reply (List Call)

/-- What happens to a stub. -/
inductive Move where
  | call (request : Request)
  /-- The tree is changed by others. -/
  | change (change : Tree → Tree)

/-- The requests among some moves, in order. -/
def requests (moves : List Move) : List Request :=
  moves.filterMap fun
    | .call request => some request
    | .change _ => none

/-- What comes of a history: the calls that the stub recorded, each turn, and the tree. -/
structure History where
  calls : List Call
  turns : List Turn
  tree : Tree

def play (cwd : Working) (plan : Plan) : List Move → List Call → Tree → History
  | [], calls, t => ⟨calls, [], t⟩
  | .call request :: rest, calls, t =>
    let reply := runner cwd plan request calls t
    let later := play cwd plan rest reply.state reply.tree
    { later with turns := ⟨request, t, reply⟩ :: later.turns }
  | .change change :: rest, calls, t => play cwd plan rest calls (change t)

/-- Calls told apart by what becomes of their output. Each of them counts on one side, and on both
sides they keep their order. An invocation without a file counts with an empty name. -/
inductive Apart : List Call → List String → List (String × String) → Prop where
  | nil : Apart [] [] []
  | probe {call : Call} {calls : List Call} {ps : List String} {is : List (String × String)}
      (h : call.output = .capture) (hrest : Apart calls ps is) :
      Apart (call :: calls) (call.program :: ps) is
  | invocation {call : Call} {calls : List Call} {ps : List String} {is : List (String × String)}
      {name : String} (h : call.output = .inherit)
      (hname : call.Names name ∨ (∀ name, ¬call.Names name) ∧ name = "")
      (hrest : Apart calls ps is) : Apart (call :: calls) ps ((call.program, name) :: is)

theorem apart (calls : List Call) : Apart calls (probes calls) (invocations calls) := by
  induction calls with
  | nil => exact .nil
  | cons call rest ih =>
    cases hout : call.output with
    | capture =>
      have hp : probes (call :: rest) = call.program :: probes rest := by simp [probes, hout]
      have hi : invocations (call :: rest) = invocations rest := by simp [invocations, hout]
      rw [hp, hi]
      exact .probe hout ih
    | inherit =>
      have hp : probes (call :: rest) = probes rest := by simp [probes, hout]
      have hi : invocations (call :: rest) =
          (call.program, call.targetName.getD "") :: invocations rest := by
        simp [invocations, hout]
      rw [hp, hi]
      refine .invocation hout ?_ ih
      cases hname : call.targetName with
      | some name => exact .inl (Call.targetName_eq_some_iff.mp hname)
      | none =>
        refine .inr ⟨fun name hnames => ?_, rfl⟩
        cases hname.symm.trans (Call.targetName_eq_some_iff.mpr hnames)

/-- The file that a request names last. -/
def lastFile (request : Request) : Option Path := request.args.getLast?.map Path.mk

/-- What may be expected of a turn, and of the call as which it is recorded. -/
structure Turn.Faithful (cwd : Working) (plan : Plan) (turn : Turn) (call : Call) : Prop where
  recorded : Recorded turn.request call
  /-- In either mode, what cannot be started is the error of the kind "not found". -/
  missing : call.program ∈ plan.missing → turn.reply.answer = .error (.other "entity not found")
  probe : call.program ∉ plan.missing → turn.request.output = .capture →
    turn.reply.answer = .ok .success
  work : call.program ∉ plan.missing → turn.request.output = .inherit →
    ∃ b, plan.Sets call b ∧
      Outcome cwd turn.before (lastFile turn.request) b turn.reply.answer turn.reply.tree
  /-- Only a real invocation that has a file and is to give it content changes the tree. -/
  frame : turn.reply.tree ≠ turn.before →
    call.program ∉ plan.missing ∧ turn.request.output = .inherit ∧
    (lastFile turn.request).isSome ∧
    ∃ b, plan.Sets call b ∧ ∃ old content, b.Makes old content

theorem Outcome.frame {cwd : Working} {t t' : Tree} {file : Option Path} {b : Behavior}
    {answer : Except IoError Status} (h : Outcome cwd t file b answer t') (hne : t' ≠ t) :
    file.isSome ∧ ∃ old content, b.Makes old content := by
  cases h with
  | keep | fail | interrupt | idle | refused | swallowed => exact absurd rfl hne
  | changed hb hfile => exact ⟨by rw [hfile]; rfl, _, _, hb⟩
  | created hb hfile => exact ⟨by rw [hfile]; rfl, _, _, hb⟩

section Runner

variable (cwd : Working) (plan : Plan) {request : Request}

theorem runner_missing (h : request.program.display ∈ plan.missing) (calls : List Call) (t : Tree) :
    runner cwd plan request calls t =
      ⟨.error (.other "entity not found"), [], calls ++ [.ofRequest request], t⟩ :=
  if_pos h

theorem runner_probe (h : request.program.display ∉ plan.missing)
    (hout : request.output = .capture) (calls : List Call) (t : Tree) :
    runner cwd plan request calls t = ⟨.ok .success, [], calls ++ [.ofRequest request], t⟩ := by
  simp only [runner, Call.ofRequest, if_neg h, hout]

theorem runner_work (h : request.program.display ∉ plan.missing)
    (hout : request.output = .inherit) (calls : List Call) (t : Tree) :
    runner cwd plan request calls t =
      ⟨((plan.behavior (.ofRequest request)).act ⟨t, cwd⟩ (lastFile request)).1, [],
        calls ++ [.ofRequest request],
        ((plan.behavior (.ofRequest request)).act ⟨t, cwd⟩ (lastFile request)).2.tree⟩ := by
  simp only [runner, Call.ofRequest, if_neg h, hout]
  rfl

theorem state_runner (request : Request) (calls : List Call) (t : Tree) :
    (runner cwd plan request calls t).state = calls ++ [.ofRequest request] := by
  by_cases h : request.program.display ∈ plan.missing
  · rw [runner_missing cwd plan h]
  cases hout : request.output with
  | capture => rw [runner_probe cwd plan h hout]
  | inherit => rw [runner_work cwd plan h hout]

theorem faithful_runner (request : Request) (calls : List Call) (t : Tree) :
    Turn.Faithful cwd plan ⟨request, t, runner cwd plan request calls t⟩ (.ofRequest request) := by
  have hrecorded := recorded_ofRequest request
  by_cases h : request.program.display ∈ plan.missing
  · rw [runner_missing cwd plan h]
    exact ⟨hrecorded, fun _ => rfl, absurd h, absurd h, absurd rfl⟩
  cases hout : request.output with
  | capture =>
    rw [runner_probe cwd plan h hout]
    exact ⟨hrecorded, fun hin => absurd hin h, fun _ _ => rfl,
      fun _ hin => (nomatch hout.symm.trans hin), absurd rfl⟩
  | inherit =>
    have hsets := plan.sets_behavior (.ofRequest request)
    have hact := outcome_act t cwd (lastFile request) (plan.behavior (.ofRequest request))
    rw [runner_work cwd plan h hout]
    refine ⟨hrecorded, fun hin => absurd hin h, fun _ hin => (nomatch hout.symm.trans hin),
      fun _ _ => ⟨_, hsets, hact⟩, fun hne => ?_⟩
    obtain ⟨hfile, hmakes⟩ := hact.frame hne
    exact ⟨h, hout, hfile, _, hsets, hmakes⟩

/-- Over any history, a stub records each call in turn, whatever it answers, and every call does
what the plan sets for it. All calls, those before included, are told apart as probes and real
invocations. -/
theorem play_faithful (moves : List Move) (calls : List Call) (t : Tree) :
    let history := play cwd plan moves calls t
    (∃ new, history.calls = calls ++ new ∧
      List.Forall₂ (Turn.Faithful cwd plan) history.turns new) ∧
    history.turns.map Turn.request = requests moves ∧
    Apart history.calls (probes history.calls) (invocations history.calls) := by
  intro history
  rw [← and_assoc]
  refine ⟨?_, apart history.calls⟩
  induction moves generalizing calls t with
  | nil => exact ⟨⟨[], (List.append_nil calls).symm, .nil⟩, rfl⟩
  | cons move rest ih =>
    cases move with
    | change change => exact ih calls (change t)
    | call request =>
      let reply := runner cwd plan request calls t
      obtain ⟨⟨new, hcalls, hturns⟩, hrequests⟩ := ih reply.state reply.tree
      have hstate : reply.state = calls ++ [.ofRequest request] :=
        state_runner cwd plan request calls t
      refine ⟨⟨.ofRequest request :: new, ?_, ?_⟩, congrArg (request :: ·) hrequests⟩
      · calc (play cwd plan (.call request :: rest) calls t).calls
            = reply.state ++ new := hcalls
          _ = calls ++ .ofRequest request :: new := by
            rw [hstate, List.append_assoc, List.singleton_append]
      · exact .cons (faithful_runner cwd plan request calls t) hturns

end Runner

end Groom.Stub
