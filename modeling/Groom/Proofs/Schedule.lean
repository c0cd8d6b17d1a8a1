import Mathlib.Data.List.Forall2
import Groom.Runner.Host
import Groom.Proofs.Interrupt
import Groom.Proofs.Invariant
import Groom.Proofs.Phases

/-! Interrupts at any time. A clock runs before, between and during the calls of a run, and at any
tick of it the user may interrupt. The flag that this sets is looked at when a call begins and once
more when a command has ended; what happens in the windows between is up to the outside. -/
namespace Groom

variable {η : Type}

/-- What becomes of a command that could be started: the ticks that pass before it is running, while
it runs, and from its end until the flag is looked at; how it ends, what it shows, and what it
leaves. -/
structure Stay (η : Type) where
  startup : Nat
  length : Nat
  notice : Nat
  ending : Ending
  shown : List Shown
  state : η
  tree : Tree

/-- All that is outside of the program: at which ticks an interrupt arrives, how long it takes until
the next call, and what becomes of a command that is to be started at a tick. -/
structure Outside (η : Type) where
  interrupts : Nat → Bool
  wait : η → Nat × η
  start : Request → η → Tree → Nat → Except IoError (Stay η)

/-- A command that was started: from when to when it ran, when the flag was looked at after that,
and how it ended. -/
structure Child where
  started : Nat
  ended : Nat
  looked : Nat
  ending : Ending
  deriving DecidableEq, Repr

/-- A call: when it began, and the command that it started, if it started one. -/
structure Visit where
  began : Nat
  child? : Option Child
  deriving DecidableEq, Repr

/-- The outside as it is at a tick, with all calls so far. -/
structure Timeline (η : Type) where
  state : η
  clock : Nat
  visits : List Visit := []

namespace Outside

/-- The flag is set by the first interrupt, and it is never cleared. -/
def flag (o : Outside η) (tick : Nat) : Bool := (List.range (tick + 1)).any o.interrupts

/-- The outside as a host for commands, on which time passes. -/
def host (o : Outside η) : Host (Timeline η) where
  arrived timeline :=
    let (ticks, state) := o.wait timeline.state
    let now := timeline.clock + ticks
    (o.flag now, ⟨state, now, timeline.visits ++ [⟨now, none⟩]⟩)
  launch request timeline tree :=
    (o.start request timeline.state tree timeline.clock).map fun stay =>
      let began := timeline.clock
      let started := began + stay.startup
      let ended := started + stay.length
      let looked := ended + stay.notice
      { ending := stay.ending
        shown := stay.shown
        interrupted := o.flag looked
        killed := false
        host := ⟨stay.state, looked,
          timeline.visits.dropLast ++ [⟨began, some ⟨started, ended, looked, stay.ending⟩⟩]⟩
        tree := stay.tree }

variable {o : Outside η}

theorem flag_iff {tick : Nat} : o.flag tick = true ↔ ∃ k ≤ tick, o.interrupts k = true := by
  simp only [flag, List.any_eq_true, List.mem_range, Nat.lt_succ_iff]

theorem flag_mono {tick later : Nat} (h : tick ≤ later) (hflag : o.flag tick = true) :
    o.flag later = true := by
  obtain ⟨k, hk, hinterrupt⟩ := flag_iff.mp hflag
  exact flag_iff.mpr ⟨k, Nat.le_trans hk h, hinterrupt⟩

/-- How a call is answered: at once if the flag is set when it begins; with the reason why its
command could not be started then; or with the status of the command that was started, which the
flag overrides. -/
inductive Answers (o : Outside η) : Request × Except IoError Status → Visit → Prop
  | atOnce {request : Request} {began : Nat} (h : o.flag began = true) :
      Answers o (request, .ok .interrupted) ⟨began, none⟩
  | unstarted {request : Request} {began : Nat} {cause : IoError} (h : o.flag began = false)
      (hstart : ∃ state tree, o.start request state tree began = .error cause) :
      Answers o (request, .error cause) ⟨began, none⟩
  | ended {request : Request} {began : Nat} {child : Child} (h : o.flag began = false)
      (hstart : ∃ state tree stay, o.start request state tree began = .ok stay ∧
        stay.ending = child.ending)
      (hstarted : began ≤ child.started) (hended : child.started ≤ child.ended)
      (hlooked : child.ended ≤ child.looked) :
      Answers o (request, .ok (Host.statusOf (o.flag child.looked) child.ending))
        ⟨began, some child⟩

/-- What is true between two calls: the flag that was seen is set, and the program is alive. -/
structure Sound (o : Outside η) (watched : Host.Watched (Timeline η)) : Prop where
  seen : watched.interrupted = true → o.flag watched.host.clock = true
  alive : watched.killed = false

/-- One call of the runner on such a host. -/
theorem answers_call {watched : Host.Watched (Timeline η)} (h : o.Sound watched) (request : Request)
    (tree : Tree) :
    let reply := o.host.runner request watched tree
    ∃ visit, reply.state.host.visits = watched.host.visits ++ [visit] ∧
      o.Answers (request, reply.answer) visit ∧ o.Sound reply.state := by
  intro reply
  let waited := o.wait watched.host.state
  let now := watched.host.clock + waited.1
  by_cases hseen : (watched.interrupted || o.flag now) = true
  · -- what was seen earlier is still so, since time only went on
    have hflag : o.flag now = true := by
      obtain h' | h' := Bool.or_eq_true_iff.mp hseen
      · exact flag_mono (Nat.le_add_right _ _) (h.seen h')
      · exact h'
    have hreply : reply = ⟨.ok .interrupted, [],
        ⟨⟨waited.2, now, watched.host.visits ++ [⟨now, none⟩]⟩, true, false⟩, tree⟩ := by
      dsimp only [reply, Host.runner, host]
      rw [h.alive, hseen]
      rfl
    rw [hreply]
    exact ⟨⟨now, none⟩, rfl, .atOnce hflag, fun _ => hflag, rfl⟩
  · have hunseen : (watched.interrupted || o.flag now) = false := Bool.eq_false_iff.mpr hseen
    obtain ⟨hinterrupted, hflag⟩ := Bool.or_eq_false_iff.mp hunseen
    cases hstart : o.start request waited.2 tree now with
    | error cause =>
      have hreply : reply = ⟨.error cause, [],
          ⟨⟨waited.2, now, watched.host.visits ++ [⟨now, none⟩]⟩, false, false⟩, tree⟩ := by
        dsimp only [reply, Host.runner, host]
        rw [h.alive, hunseen, hstart]
        rfl
      rw [hreply]
      exact ⟨⟨now, none⟩, rfl, .unstarted hflag ⟨_, _, hstart⟩, nofun, rfl⟩
    | ok stay =>
      let started := now + stay.startup
      let ended := started + stay.length
      let looked := ended + stay.notice
      let child : Child := ⟨started, ended, looked, stay.ending⟩
      have hreply : reply = ⟨.ok (Host.statusOf (o.flag looked) stay.ending),
          Host.visible request.output stay.shown,
          ⟨⟨stay.state, looked, watched.host.visits ++ [⟨now, some child⟩]⟩, o.flag looked, false⟩,
          stay.tree⟩ := by
        dsimp only [reply, Host.runner, host]
        rw [h.alive, hunseen, hstart]
        dsimp only [Except.map]
        rw [List.dropLast_concat]
        rfl
      rw [hreply]
      have hstarted : now ≤ started := Nat.le_add_right now stay.startup
      have hended : started ≤ ended := Nat.le_add_right started stay.length
      have hlooked : ended ≤ looked := Nat.le_add_right ended stay.notice
      have hanswers : o.Answers (request, .ok (Host.statusOf (o.flag child.looked) child.ending))
          ⟨now, some child⟩ := .ended hflag ⟨_, _, stay, hstart, rfl⟩ hstarted hended hlooked
      exact ⟨⟨now, some child⟩, rfl, hanswers, id, rfl⟩

/-- A call that is interrupted: the flag was set before it began, or before it was looked at again,
or else the command was killed by the interrupt itself. -/
def Cut (o : Outside η) (visit : Visit) : Prop :=
  o.flag visit.began = true ∨ ∃ child, visit.child? = some child ∧
    (o.flag child.looked = true ∨ child.ending = .signal Host.interruptSignal)

/-- A call during which a command was started, or was still running, after the flag was set. -/
def lingers (o : Outside η) (visit : Visit) : Bool :=
  visit.child?.any fun child => o.flag child.ended

variable {call : Request × Except IoError Status} {visit : Visit}

theorem Answers.interrupted (h : o.Answers call visit) (hcut : o.Cut visit) :
    call.2 = .ok .interrupted := by
  cases h with
  | atOnce h => rfl
  | unstarted h =>
    obtain hflag | ⟨child, hchild, -⟩ := hcut
    · cases h.symm.trans hflag
    · cases hchild
  | ended h =>
    obtain hflag | ⟨child, hchild, hcut⟩ := hcut
    · cases h.symm.trans hflag
    · obtain rfl := Option.some.inj hchild
      exact congrArg Except.ok (if_pos hcut)

theorem Answers.childless (h : o.Answers call visit) (hflag : o.flag visit.began = true) :
    visit.child? = none := by
  cases h with
  | atOnce h => rfl
  | unstarted h => rfl
  | ended h => cases h.symm.trans hflag

theorem Answers.cut_of_lingers (h : o.Answers call visit) (hlingers : o.lingers visit = true) :
    o.Cut visit := by
  cases h with
  | atOnce h => exact .inl h
  | unstarted h => cases hlingers
  | @ended request began child h hstart hstarted hended hlooked =>
    exact .inr ⟨child, rfl, .inl (flag_mono hlooked hlingers)⟩

theorem preserves (o : Outside η) (cwd : Working) (writer : Writer) :
    (Setting.mk cwd o.host.runner writer).Preserves fun cs watched _ =>
      List.Forall₂ o.Answers cs watched.host.visits ∧ o.Sound watched := by
  intro request cs watched tree hinv
  obtain ⟨hanswers, hsound⟩ := hinv
  obtain ⟨visit, hvisits, hanswer, hsound'⟩ := answers_call hsound request tree
  refine ⟨?_, hsound'⟩
  rw [show _ = _ from hvisits]
  exact List.rel_append hanswers (.cons hanswer .nil)

end Outside

/-- What stands in one of two lists that are related stands against something in the other. -/
theorem split_of_forall₂ {α β : Type} {r : α → β → Prop} {xs : List α} {before later : List β}
    {y : β} (h : List.Forall₂ r xs (before ++ y :: later)) :
    ∃ front x back, xs = front ++ x :: back ∧ front.length = before.length ∧ r x y ∧
      List.Forall₂ r back later := by
  have hfront := List.forall₂_take_append _ _ _ h
  have hback := List.forall₂_drop_append _ _ _ h
  obtain ⟨x, back, hx, hrest, hdrop⟩ := List.forall₂_cons_right_iff.mp hback
  refine ⟨xs.take before.length, x, back, ?_, hfront.length_eq, hx, hrest⟩
  rw [← hdrop, List.take_append_drop]

namespace Outside

variable {o : Outside η} {cs : List (Request × Except IoError Status)} {visits : List Visit}

/-- At most one command lingers, if a call that is interrupted is the last one. -/
theorem countP_lingers
    (hanswers : List.Forall₂ o.Answers cs visits)
    (hlast : ∀ before visit later, visits = before ++ visit :: later → o.Cut visit → later = []) :
    visits.countP o.lingers ≤ 1 := by
  by_cases hnone : visits.countP o.lingers = 0
  · omega
  obtain ⟨visit, hvisit, hlingers⟩ := List.countP_pos_iff.mp (Nat.pos_of_ne_zero hnone)
  have hcut {before later : List Visit} {visit : Visit} (hsplit : visits = before ++ visit :: later)
      (hlingers : o.lingers visit = true) : later = [] := by
    obtain ⟨front, call, back, -, -, hanswer, -⟩ := split_of_forall₂ (hsplit ▸ hanswers)
    exact hlast before visit later hsplit (hanswer.cut_of_lingers hlingers)
  obtain ⟨before, later, hsplit⟩ := List.append_of_mem hvisit
  obtain rfl := hcut hsplit hlingers
  -- another one before the last would itself be the last
  have hbefore : before.countP o.lingers = 0 := by
    rw [List.countP_eq_zero]
    intro earlier hearlier hlingers'
    obtain ⟨front, back, rfl⟩ := List.append_of_mem hearlier
    have hsplit' : visits = front ++ earlier :: (back ++ [visit]) := by simpa using hsplit
    have hnil := hcut hsplit' hlingers'
    exact List.append_ne_nil_of_right_ne_nil back (List.cons_ne_nil visit []) hnil
  rw [hsplit, List.countP_append, hbefore, List.countP_cons, List.countP_nil]
  split <;> omega

/-- A call that was answered as interrupted is the last deed of a run that is prompt. -/
theorem last_of_interrupted {events : List Event} {stop : Option Error}
    (hprompt : Law.prompt.holds (deeds events) stop)
    {front back : List (Request × Except IoError Status)} {request : Request}
    (hcalls : calls events = front ++ (request, .ok .interrupted) :: back) :
    back = [] ∧ stop = some .interrupted ∧ ∃ before talk,
      events = before ++ .called request (.ok .interrupted) :: talk ∧ calls before = front ∧
      ∀ e ∈ talk, e.isTalk = true := by
  have hmem : .called request (.ok .interrupted) ∈ deeds events := by
    refine mem_calls.mp (?_ : (request, .ok .interrupted) ∈ _)
    rw [calls_deeds, hcalls]
    exact List.mem_append_right _ List.mem_cons_self
  obtain ⟨hstop, ds, last, hds, hlast, hothers⟩ | ⟨-, hothers⟩ := hprompt
  · obtain ⟨before, talk, hevents, hbefore, htalk⟩ := eq_of_deeds_concat hds
    obtain ⟨request', rfl⟩ := last.eq_called_of_isInterrupt hlast
    have hnot : (request, .ok .interrupted) ∉ calls ds := fun h => by
      cases hothers _ (mem_calls.mp h)
    have hsplit : calls ds ++ [(request', .ok .interrupted)] =
        front ++ (request, .ok .interrupted) :: back := by
      rw [← hcalls, ← calls_deeds events, hds, calls_append]
      rfl
    obtain ⟨more, rfl, hone⟩ := append_split hnot hsplit
    obtain ⟨rfl, hrest⟩ | ⟨-, hrest⟩ := List.append_eq_singleton_iff.mp hone.symm
    · obtain ⟨hcall, rfl⟩ := List.cons.inj hrest
      obtain rfl : request = request' := congrArg Prod.fst hcall
      refine ⟨rfl, hstop, before, talk, hevents, ?_, deeds_eq_nil_iff.mp htalk⟩
      rw [← calls_deeds, hbefore, List.append_nil]
    · cases hrest
  · cases hothers _ hmem

/-- Interrupts at any time. Whatever the outside does and whenever interrupts arrive, calls are
answered as their visits tell: one that begins with the flag set starts no command, and one in which
the flag is set before it is looked at again, or whose command is killed by the interrupt, counts as
interrupted if its command was started. Such a call is the last one of the run; nothing is written
after it, and the run ends as interrupted. And over the whole run at most one command is started, or
still running, after the flag was set. -/
theorem interrupt_at_any_time (o : Outside η) (cwd : Working) (writer : Writer) (steps : List Step)
    (state : η) (clock : Nat) (tree : Tree) (journal : List Event) :
    let s : Setting (Host.Watched (Timeline η)) := ⟨cwd, o.host.runner, writer⟩
    let w : World (Host.Watched (Timeline η)) := ⟨tree, { host := { state, clock } }, journal⟩
    let run := Chain.runSteps s steps
    let visits := (run.after w).runner.host.visits
    ∃ events, (run.after w).journal = journal ++ events ∧
      List.Forall₂ (fun call visit => o.Answers call visit ∧
        (o.flag visit.began = true → visit.child? = none) ∧
        (o.Cut visit → call.2 = .ok .interrupted)) (calls events) visits ∧
      (∀ before visit later, visits = before ++ visit :: later → o.Cut visit →
        later = [] ∧ run.outcome w = .error .interrupted ∧ ∃ front request talk,
          events = front ++ .called request (.ok .interrupted) :: talk ∧
          (calls front).length = before.length ∧ ∀ e ∈ talk, e.isTalk = true) ∧
      visits.countP o.lingers ≤ 1 := by
  intro s w run visits
  have hstart : o.Sound w.runner := ⟨nofun, rfl⟩
  have hkeeps := Run.Keeps.runSteps (preserves o cwd writer) steps w [] ⟨.nil, hstart⟩
  obtain ⟨events, hj, ⟨hserved, -⟩, hprompt⟩ :=
    hkeeps.and ((Law.prompt_basic s).runSteps steps w)
  have hanswers : List.Forall₂ o.Answers (calls events) visits := by
    rw [← calls_deeds]
    exact hserved
  have hlast (before : List Visit) (visit : Visit) (later : List Visit)
      (hsplit : visits = before ++ visit :: later) (hcut : o.Cut visit) :
      later = [] ∧ run.outcome w = .error .interrupted ∧ ∃ front request talk,
        events = front ++ .called request (.ok .interrupted) :: talk ∧
        (calls front).length = before.length ∧ ∀ e ∈ talk, e.isTalk = true := by
    obtain ⟨front, ⟨request, answer⟩, back, hcalls, hlength, hanswer, hrest⟩ :=
      split_of_forall₂ (hsplit ▸ hanswers)
    obtain rfl := hanswer.interrupted hcut
    obtain ⟨rfl, hstop, early, talk, hevents, rfl, htalk⟩ := last_of_interrupted hprompt hcalls
    exact ⟨List.forall₂_nil_left_iff.mp hrest, Run.stop_eq_some_iff.mp hstop, early, request, talk,
      hevents, hlength, htalk⟩
  refine ⟨events, hj, ?_, hlast, ?_⟩
  · refine hanswers.imp fun call visit hanswer => ?_
    exact ⟨hanswer, hanswer.childless, hanswer.interrupted⟩
  · exact countP_lingers hanswers fun before visit later hsplit hcut =>
      (hlast before visit later hsplit hcut).1

/-- An interrupt at tick 8, between the look at the flag before the second command and the start of
that command: it runs to a good end, counts as interrupted, and no third one is started. -/
example :
    let o : Outside Unit := ⟨(· = 8), fun _ => (2, ()), fun _ _ tree _ =>
      .ok ⟨1, 2, 0, .exit 0, [], (), tree⟩⟩
    let s : Setting (Host.Watched (Timeline Unit)) := ⟨⟨[], 0⟩, o.host.runner, .willing⟩
    let lint : AnalyzeStep := ⟨"lint", .ofString "/", .named "muon"⟩
    let run := Chain.runSteps s [.analyze lint, .analyze lint]
    let w : World (Host.Watched (Timeline Unit)) := ⟨⟨[], []⟩, { host := ⟨(), 0, []⟩ }, []⟩
    Run.stop (run.outcome w) = some .interrupted ∧
      (run.after w).runner.host.visits =
        [⟨2, some ⟨3, 5, 5, .exit 0⟩⟩, ⟨7, some ⟨8, 10, 10, .exit 0⟩⟩] := by
  decide +kernel

end Outside

end Groom
