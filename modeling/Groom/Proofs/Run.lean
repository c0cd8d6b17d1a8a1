import Groom.Run

/-! What a run does. A run is read as a function of the world in which it starts: it ends in an
outcome, it leaves a world, and it adds events to the journal. Records and what commands show are
talk; the rest are deeds. `Meets` says what a run does from one world, and its rules follow the way
in which runs are put together. -/
namespace Groom

variable {σ α β : Type}

/-- Whether an event is mere talk: a record, or something shown on the terminal. -/
def Event.isTalk : Event → Bool
  | .logged _ | .shown _ => true
  | _ => false

def deeds (events : List Event) : List Event := events.filter (!·.isTalk)

@[simp] theorem deeds_append (xs ys : List Event) : deeds (xs ++ ys) = deeds xs ++ deeds ys :=
  List.filter_append ..

theorem deeds_cons {e : Event} (h : e.isTalk = false) (events : List Event) :
    deeds (e :: events) = e :: deeds events := by
  simp [deeds, h]

theorem mem_deeds {e : Event} {events : List Event} :
    e ∈ deeds events ↔ e ∈ events ∧ e.isTalk = false := by
  simp [deeds, List.mem_filter]

theorem deeds_eq_nil_iff {events : List Event} :
    deeds events = [] ↔ ∀ e ∈ events, e.isTalk = true := by
  simp [deeds, List.filter_eq_nil_iff]

/-- What talk says nothing about can be read off the deeds. -/
theorem filterMap_deeds {f : Event → Option α} (hf : ∀ e, e.isTalk = true → f e = none)
    (events : List Event) : (deeds events).filterMap f = events.filterMap f := by
  induction events with
  | nil => rfl
  | cons e rest ih =>
    have hsplit : deeds (e :: rest) = deeds [e] ++ deeds rest := deeds_append [e] rest
    have hone : (deeds [e]).filterMap f = [e].filterMap f := by
      cases he : e.isTalk with
      | true => simp [deeds, he, hf e he]
      | false => simp [deeds, he]
    calc (deeds (e :: rest)).filterMap f
        = (deeds [e]).filterMap f ++ (deeds rest).filterMap f := by
          rw [hsplit, List.filterMap_append]
      _ = [e].filterMap f ++ rest.filterMap f := by rw [hone, ih]
      _ = (e :: rest).filterMap f := List.filterMap_append.symm

/-- If the last deed of a run is known, only talk comes after it. -/
theorem eq_of_deeds_concat {events ds : List Event} {d : Event} (h : deeds events = ds ++ [d]) :
    ∃ before later, events = before ++ d :: later ∧ deeds before = ds ∧ deeds later = [] := by
  obtain ⟨xs, ys, rfl, hx, hy⟩ := List.filter_eq_append_iff.mp h
  obtain ⟨us, vs, rfl, hu, -, hv⟩ := List.filter_eq_cons_iff.mp hy
  refine ⟨xs ++ us, vs, by simp, ?_, hv⟩
  have hnone : deeds us = [] := by
    rw [deeds_eq_nil_iff]
    intro e he
    simpa using hu e he
  simp only [deeds_append, hnone, List.append_nil]
  exact hx

/-- The text that the report took in some events. -/
def text (events : List Event) : String := String.join (events.filterMap Event.piece?)

@[simp] theorem text_nil : text [] = "" := String.join_nil

@[simp] theorem text_append (xs ys : List Event) : text (xs ++ ys) = text xs ++ text ys := by
  simp [text]

@[simp] theorem text_map_wrote (pieces : List String) :
    text (pieces.map .wrote) = String.join pieces := by
  induction pieces with
  | nil => rfl
  | cons piece rest ih =>
    simp only [text, List.map_cons, List.filterMap_cons, Event.piece?, String.join_cons] at *
    rw [ih]

@[simp] theorem text_deeds (events : List Event) : text (deeds events) = text events := by
  have htalk : ∀ e : Event, e.isTalk = true → e.piece? = none := by
    intro e he
    cases e <;> first | rfl | cases he
  rw [text, filterMap_deeds htalk, ← text]

/-- Tree and runner of a world are still what they were. -/
def World.Still (w w' : World σ) : Prop := w'.tree = w.tree ∧ w'.runner = w.runner

theorem World.Still.refl (w : World σ) : w.Still w := ⟨rfl, rfl⟩

theorem World.Still.trans {w w' w'' : World σ} (h : w.Still w') (h' : w'.Still w'') :
    w.Still w'' :=
  ⟨h'.1.trans h.1, h'.2.trans h.2⟩

namespace Run

def outcome (m : Run σ α) (w : World σ) : Except Error α := (StateT.run (ExceptT.run m) w).run.1

def after (m : Run σ α) (w : World σ) : World σ := (StateT.run (ExceptT.run m) w).run.2

def stop : Except Error α → Option Error
  | .ok _ => none
  | .error e => some e

@[simp] theorem stop_ok (a : α) : stop (.ok a) = none := rfl

@[simp] theorem stop_error (e : Error) : stop (.error e : Except Error α) = some e := rfl

@[simp] theorem stop_mapError_ok {ε : Type} (f : ε → Error) (a : α) :
    stop ((.ok a : Except ε α).mapError f) = none := rfl

@[simp] theorem stop_mapError_error {ε : Type} (f : ε → Error) (e : ε) :
    stop ((.error e : Except ε α).mapError f) = some (f e) := rfl

theorem eq_ok_of_mapError {ε : Type} {f : ε → Error} {r : Except ε α} {a : α}
    (h : .ok a = r.mapError f) : r = .ok a := by
  cases r <;> cases h
  rfl

theorem eq_error_of_mapError {ε : Type} {f : ε → Error} {r : Except ε α} {e : Error}
    (h : .error e = r.mapError f) : ∃ cause, r = .error cause ∧ e = f cause := by
  cases r <;> cases h
  exact ⟨_, rfl, rfl⟩

@[simp] theorem stop_map (f : α → β) (r : Except Error α) : stop (r.map f) = stop r := by
  cases r <;> rfl

theorem stop_eq_some_iff {r : Except Error α} {e : Error} : stop r = some e ↔ r = .error e := by
  cases r <;> simp

theorem stop_eq_none_iff {r : Except Error α} : stop r = none ↔ ∃ a, r = .ok a := by
  cases r <;> simp

/-- From a world, a run only adds to the journal, and `post` holds of the deeds that it adds, of its
outcome and of the world it leaves. -/
def Meets (m : Run σ α) (w : World σ)
    (post : List Event → Except Error α → World σ → Prop) : Prop :=
  ∃ events, (m.after w).journal = w.journal ++ events ∧
    post (deeds events) (m.outcome w) (m.after w)

/-- `inv` holds of what a run returns, or `failed` of the error that stops it. -/
def Ends (inv : α → List Event → World σ → Prop) (failed : Error → List Event → World σ → Prop)
    (ds : List Event) : Except Error α → World σ → Prop
  | .ok a, w => inv a ds w
  | .error e, w => failed e ds w

/-- A run that does nothing but look around and talk. -/
def Idle (m : Run σ α) : Prop :=
  ∀ w, m.Meets w fun ds r w' => ds = [] ∧ (∃ a, r = .ok a) ∧ w.Still w'

theorem outcome_bind (m : Run σ α) (f : α → Run σ β) (w : World σ) :
    (m >>= f).outcome w = match m.outcome w with
      | .ok a => (f a).outcome (m.after w)
      | .error e => .error e := by
  simp only [outcome, after, StateT.run, ExceptT.run, Id.run, Bind.bind, ExceptT.bind, ExceptT.mk,
    StateT.bind]
  cases h : m w with
  | mk r w' => cases r <;> rfl

theorem after_bind (m : Run σ α) (f : α → Run σ β) (w : World σ) :
    (m >>= f).after w = match m.outcome w with
      | .ok a => (f a).after (m.after w)
      | .error _ => m.after w := by
  simp only [outcome, after, StateT.run, ExceptT.run, Id.run, Bind.bind, ExceptT.bind, ExceptT.mk,
    StateT.bind]
  cases h : m w with
  | mk r w' => cases r <;> rfl

theorem outcome_bind_pure (m : Run σ α) (f : α → β) (w : World σ) :
    (m >>= fun a => pure (f a)).outcome w = (m.outcome w).map f := by
  rw [outcome_bind]
  cases m.outcome w <;> rfl

theorem after_bind_pure (m : Run σ α) (f : α → β) (w : World σ) :
    (m >>= fun a => pure (f a)).after w = m.after w := by
  rw [after_bind]
  cases m.outcome w <;> rfl

theorem outcome_bind_eq_ok {m : Run σ α} {f : α → Run σ β} {w : World σ} {b : β} :
    (m >>= f).outcome w = .ok b ↔
      ∃ a, m.outcome w = .ok a ∧ (f a).outcome (m.after w) = .ok b := by
  rw [outcome_bind]
  cases m.outcome w with
  | ok a =>
    constructor
    · intro h
      exact ⟨a, rfl, h⟩
    · rintro ⟨a', ha, h⟩
      cases ha
      exact h
  | error e =>
    constructor
    · intro h
      cases h
    · rintro ⟨a, ha, -⟩
      cases ha

theorem outcome_tryCatch (m : Run σ α) (handle : Error → Run σ α) (w : World σ) :
    (tryCatch m handle).outcome w = match m.outcome w with
      | .ok a => .ok a
      | .error e => (handle e).outcome (m.after w) := by
  simp only [outcome, after, StateT.run, ExceptT.run, Id.run, tryCatch, tryCatchThe,
    MonadExceptOf.tryCatch, ExceptT.tryCatch, ExceptT.mk, Bind.bind, StateT.bind]
  cases h : m w with
  | mk r w' => cases r <;> rfl

theorem after_tryCatch (m : Run σ α) (handle : Error → Run σ α) (w : World σ) :
    (tryCatch m handle).after w = match m.outcome w with
      | .ok _ => m.after w
      | .error e => (handle e).after (m.after w) := by
  simp only [outcome, after, StateT.run, ExceptT.run, Id.run, tryCatch, tryCatchThe,
    MonadExceptOf.tryCatch, ExceptT.tryCatch, ExceptT.mk, Bind.bind, StateT.bind]
  cases h : m w with
  | mk r w' => cases r <;> rfl

theorem Meets.mono {m : Run σ α} {w : World σ}
    {post weaker : List Event → Except Error α → World σ → Prop} (h : m.Meets w post)
    (hw : ∀ ds r w', post ds r w' → weaker ds r w') : m.Meets w weaker := by
  obtain ⟨events, hj, hp⟩ := h
  exact ⟨events, hj, hw _ _ _ hp⟩

/-- What a run does, it does with its own outcome and in the world that it leaves. -/
theorem Meets.exactly {m : Run σ α} {w : World σ}
    {post : List Event → Except Error α → World σ → Prop} (h : m.Meets w post) :
    m.Meets w fun ds r w' => post ds r w' ∧ m.outcome w = r ∧ m.after w = w' := by
  obtain ⟨events, hj, hp⟩ := h
  exact ⟨events, hj, hp, rfl, rfl⟩

/-- The report grows by the text of what a run does. -/
theorem Meets.report {m : Run σ α} {w : World σ}
    {post : List Event → Except Error α → World σ → Prop} (h : m.Meets w post) :
    m.Meets w fun ds r w' => post ds r w' ∧ w'.report = w.report ++ text ds := by
  obtain ⟨events, hj, hpost⟩ := h
  refine ⟨events, hj, hpost, ?_⟩
  rw [text_deeds]
  calc (m.after w).report
      = text (w.journal ++ events) := congrArg text hj
    _ = w.report ++ text events := text_append _ _

/-- A run may be replaced by one that comes to the same from a world with the same journal. -/
theorem Meets.congr {m : Run σ α} {w : World σ}
    {post : List Event → Except Error α → World σ → Prop} (m' : Run σ α) (w' : World σ)
    (h : m'.Meets w' post) (ho : m.outcome w = m'.outcome w') (ha : m.after w = m'.after w')
    (hj : w.journal = w'.journal) : m.Meets w post := by
  unfold Meets
  rw [ho, ha, hj]
  exact h

theorem Meets.pure {a : α} {w : World σ} {post : List Event → Except Error α → World σ → Prop}
    (h : post [] (.ok a) w) : (pure a : Run σ α).Meets w post :=
  ⟨[], (List.append_nil _).symm, h⟩

theorem Meets.throw {e : Error} {w : World σ}
    {post : List Event → Except Error α → World σ → Prop}
    (h : post [] (.error e) w) : (throw e : Run σ α).Meets w post :=
  ⟨[], (List.append_nil _).symm, h⟩

theorem Meets.bind {m : Run σ α} {f : α → Run σ β} {w : World σ}
    {mid : List Event → Except Error α → World σ → Prop}
    {post : List Event → Except Error β → World σ → Prop} (hm : m.Meets w mid)
    (hok : ∀ ds a w', mid ds (.ok a) w' →
      (f a).Meets w' fun ds' r w'' => post (ds ++ ds') r w'')
    (herr : ∀ ds e w', mid ds (.error e) w' → post ds (.error e) w') :
    (m >>= f).Meets w post := by
  obtain ⟨events, hj, hp⟩ := hm
  unfold Meets
  rw [outcome_bind, after_bind]
  cases h : m.outcome w with
  | error e =>
    rw [h] at hp
    exact ⟨events, hj, herr _ _ _ hp⟩
  | ok a =>
    rw [h] at hp
    obtain ⟨more, hj', hp'⟩ := hok _ _ _ hp
    refine ⟨events ++ more, ?_, ?_⟩
    · rw [hj', hj, List.append_assoc]
    · rw [deeds_append]
      exact hp'

theorem Meets.tryCatch {m : Run σ α} {handle : Error → Run σ α} {w : World σ}
    {mid post : List Event → Except Error α → World σ → Prop} (hm : m.Meets w mid)
    (hok : ∀ ds a w', mid ds (.ok a) w' → post ds (.ok a) w')
    (herr : ∀ ds e w', mid ds (.error e) w' →
      (handle e).Meets w' fun ds' r w'' => post (ds ++ ds') r w'') :
    (tryCatch m handle).Meets w post := by
  obtain ⟨events, hj, hp⟩ := hm
  unfold Meets
  rw [outcome_tryCatch, after_tryCatch]
  cases h : m.outcome w with
  | ok a =>
    rw [h] at hp
    exact ⟨events, hj, hok _ _ _ hp⟩
  | error e =>
    rw [h] at hp
    obtain ⟨more, hj', hp'⟩ := herr _ _ _ hp
    refine ⟨events ++ more, ?_, ?_⟩
    · rw [hj', hj, List.append_assoc]
    · rw [deeds_append]
      exact hp'

/-- What follows only changes the value that is returned. -/
theorem Meets.map {m : Run σ α} {f : α → β} {w : World σ}
    {post : List Event → Except Error β → World σ → Prop}
    (h : m.Meets w fun ds r w' => post ds (r.map f) w') :
    (m >>= fun a => Pure.pure (f a)).Meets w post := by
  unfold Meets
  rw [outcome_bind_pure, after_bind_pure]
  exact h

/-- A run whose first part succeeds does what that part does and then what the rest does. -/
theorem Meets.bind_ok {m : Run σ α} {f : α → Run σ β} {w : World σ} {a : α} {begun : List Event}
    {post : List Event → Except Error β → World σ → Prop} (hr : m.outcome w = .ok a)
    (hm : m.Meets w fun ds _ _ => ds = begun)
    (hf : (f a).Meets (m.after w) fun ds r w' => post (begun ++ ds) r w') :
    (m >>= f).Meets w post := by
  refine hm.exactly.bind ?_ ?_
  · intro ds b w' hmeets
    obtain ⟨rfl, hb, rfl⟩ := hmeets
    obtain rfl := Except.ok.inj (hr.symm.trans hb)
    exact hf
  · intro ds e w' hmeets
    obtain ⟨-, he, -⟩ := hmeets
    cases hr.symm.trans he

/-- Two runs do literally the same from a world. -/
def Alike (m m' : Run σ α) (w : World σ) : Prop :=
  m.outcome w = m'.outcome w ∧ m.after w = m'.after w

theorem Alike.refl (m : Run σ α) (w : World σ) : m.Alike m w := ⟨rfl, rfl⟩

theorem Alike.meets {m m' : Run σ α} {w : World σ}
    {post : List Event → Except Error α → World σ → Prop} (h : m.Alike m' w)
    (hm : m.Meets w post) : m'.Meets w post := by
  unfold Meets
  rw [← h.1, ← h.2]
  exact hm

theorem Alike.bind {m m' : Run σ α} {f f' : α → Run σ β} {w : World σ} (h : m.Alike m' w)
    (hf : ∀ a, m.outcome w = .ok a → (f a).Alike (f' a) (m.after w)) :
    (m >>= f).Alike (m' >>= f') w := by
  unfold Alike
  rw [outcome_bind, outcome_bind, after_bind, after_bind, ← h.1, ← h.2]
  cases hr : m.outcome w with
  | error e => exact ⟨rfl, rfl⟩
  | ok a => exact hf a hr

theorem note_meets (e : Event) (w : World σ) :
    (note e).Meets w fun ds r w' => ds = deeds [e] ∧ r = .ok () ∧ w.Still w' :=
  ⟨[e], rfl, rfl, rfl, rfl, rfl⟩

theorem forM_cons (a : α) (as : List α) (f : α → Run σ Unit) :
    (a :: as).forM f = f a >>= fun _ => as.forM f := rfl

theorem Idle.pure (a : α) : (pure a : Run σ α).Idle :=
  fun w => .pure ⟨rfl, ⟨a, rfl⟩, .refl w⟩

theorem Idle.bind_meets {m : Run σ α} {f : α → Run σ β} {w : World σ}
    {post : List Event → Except Error β → World σ → Prop} (hm : m.Idle)
    (hf : ∀ a w', w.Still w' → (f a).Meets w' post) : (m >>= f).Meets w post := by
  refine (hm w).bind ?_ ?_
  · intro ds a w' hmeets
    obtain ⟨rfl, -, hs⟩ := hmeets
    exact hf a w' hs
  · intro ds e w' hmeets
    obtain ⟨-, ⟨a, ha⟩, -⟩ := hmeets
    cases ha

theorem Idle.bind {m : Run σ α} {f : α → Run σ β} (hm : m.Idle) (hf : ∀ a, (f a).Idle) :
    (m >>= f).Idle := by
  intro w
  refine hm.bind_meets fun a w' hs => (hf a w').mono ?_
  intro ds r w'' hmeets
  obtain ⟨hd, hr, hs'⟩ := hmeets
  exact ⟨hd, hr, hs.trans hs'⟩

theorem Idle.spec {m : Run σ α} (hm : m.Idle) (w : World σ) :
    (∃ a, m.outcome w = .ok a) ∧ w.Still (m.after w) := by
  obtain ⟨events, -, -, hr, hs⟩ := hm w
  exact ⟨hr, hs⟩

theorem idle_log (level : Log.Level) (topic : Log.Topic) (message : String) :
    (log level topic message : Run σ Unit).Idle :=
  fun _ => ⟨[.logged ⟨level, topic, message⟩], rfl, rfl, ⟨(), rfl⟩, rfl, rfl⟩

theorem log_bind_meets {level : Log.Level} {topic : Log.Topic} {message : String}
    {f : Unit → Run σ β} {w : World σ} {post : List Event → Except Error β → World σ → Prop}
    (hf : ∀ w', w.Still w' → (f ()).Meets w' post) : (log level topic message >>= f).Meets w post :=
  (idle_log level topic message).bind_meets fun _ => hf

theorem idle_forM (as : List α) (f : α → Run σ Unit) (hf : ∀ a, (f a).Idle) : (as.forM f).Idle := by
  induction as with
  | nil => exact .pure ()
  | cons a rest ih => exact (hf a).bind fun _ => ih

theorem idle_files (s : Setting σ) : (files s).Idle :=
  fun _ => ⟨[], (List.append_nil _).symm, rfl, ⟨_, rfl⟩, rfl, rfl⟩

theorem files_bind_meets {s : Setting σ} {f : FileSystem → Run σ β} {w : World σ}
    {post : List Event → Except Error β → World σ → Prop} (hf : (f ⟨w.tree, s.cwd⟩).Meets w post) :
    (files s >>= f).Meets w post :=
  hf

end Run

end Groom
