import DeskScript.Proofs.Machine
import Mathlib.Data.List.Forall2

/-! What the mouse and the keyboard answer changes nothing but what is told of the actions that asked
them. -/

namespace DeskScript

/-- What the mouse and the keyboard answer to requests. -/
abbrev Devices := Call → Except Failure Unit

/-- The world with other devices. -/
def World.equipped (w : World) (devices : Devices) : World := { w with input := devices }

/-- What the action comes to in the world. -/
def Action.upshot (w : World) (a : Action) : Deed := a.deed (a.aim.run w.find).1

/-- Whether the work at an action is on the way to what the action comes to. -/
def Job.IsAimed (w : World) : Job → Prop
  | .aim _ a _ q => (q.run w.find).1 = (a.aim.run w.find).1
  | .act _ a _ place => place = (a.aim.run w.find).1
  | _ => True

/-! ### Two runs -/

section Tallies

variable (w : World) (differ : Call → Prop)

/-- The same work, but for how a request went that may be answered differently. -/
inductive Job.Tallies : Job → Job → Prop
  | same {job : Job} : job.IsAimed w → Tallies job job
  | report {step : Step} {a : Action} {since : Nat} {c : Call} {ok ok' : Bool} :
      a.upshot w = .call c → differ c → Tallies (.report step a since ok) (.report step a since ok')

/-- The same note, but for how a request went that may be answered differently. -/
inductive Note.Tallies : Note → Note → Prop
  | same {n : Note} : Tallies n n
  | called {c : Call} {ok ok' : Bool} : differ c → Tallies (.called c ok) (.called c ok')
  | outcome {step : Step} {a : Action} {ms : Nat} {c : Call} {ok ok' : Bool} :
      a.upshot w = .call c → differ c →
      Tallies (.event (Job.outcomeEvent step a ms ok)) (.event (Job.outcomeEvent step a ms ok'))

/-- The same mark, but for how a request went that may be answered differently. -/
inductive Mark.Tallies : Mark → Mark → Prop
  | same {mark : Mark} : Tallies mark mark
  | did {c : Call} {ok ok' : Bool} : differ c → Tallies (.did (.call c) ok) (.did (.call c) ok')
  | reported {step : Step} {a : Action} {c : Call} {ok ok' : Bool} :
      a.upshot w = .call c → differ c → Tallies (.reported step a ok) (.reported step a ok')

/-- The same thread, but for work that tallies. -/
structure Thread.Tallies (t t' : Thread) : Prop where
  same : t' = { t with work := t'.work }
  work : List.Forall₂ (Job.Tallies w differ) t.work t'.work
  closing : ∀ job ∈ t.closing, job.IsAimed w

/-- The same state, but for threads and notes that tally. -/
structure State.Tallies (s s' : State) : Prop where
  same : s' = { s with threads := s'.threads, notes := s'.notes }
  threads : List.Forall₂ (Thread.Tallies w differ) s.threads s'.threads
  notes : List.Forall₂ (fun n n' => n'.1 = n.1 ∧ Note.Tallies w differ n.2 n'.2) s.notes s'.notes

structure Outcome.Tallies (o o' : Outcome) : Prop where
  state : o.state.Tallies w differ o'.state
  next : List.Forall₂ (Job.Tallies w differ) o.next o'.next
  pause : o'.pause = o.pause

structure Moment.Tallies (m m' : Moment) : Prop where
  state : m.state.Tallies w differ m'.state
  active : Option.Rel (Thread.Tallies w differ) m.active m'.active

/-- The devices give the same answers but to some requests. -/
def Devices.Agree (d d' : Devices) : Prop := ∀ c, ¬ differ c → (d c).isOk = (d' c).isOk

/-- The same happening, but for how requests went that may be answered differently. -/
inductive Happening.Tallies : Happening → Happening → Prop
  | asked (i : Intervention) : Tallies (.asked i) (.asked i)
  | worked {d d' : Devices} {s s' : State} {t t' : Thread} {job job' : Job} :
      Devices.Agree differ d d' → s.Tallies w differ s' → t.Tallies w differ t' →
      job.Tallies w differ job' →
      Tallies (.worked (w.equipped d) s t job) (.worked (w.equipped d') s' t' job')
  | shifted : Tallies .shifted .shifted

end Tallies

variable {setup : Setup} {w : World} {differ : Call → Prop} {d d' : Devices} {s s' : State}
  {t t' : Thread} {job job' : Job} {m m' : Moment}

/-! ### One step -/

theorem Job.tallies_self {next : Work} (h : ∀ job ∈ next, job.IsAimed w) :
    List.Forall₂ (Job.Tallies w differ) next next :=
  List.forall₂_same.mpr fun job hj => .same (h job hj)

namespace State.Tallies

theorem isCancelled (h : s.Tallies w differ s') (k : Token) :
    s'.isCancelled k = s.isCancelled k := by
  rw [h.same]
  rfl

theorem clock (h : s.Tallies w differ s') : s'.clock = s.clock := by rw [h.same]

theorem phase (h : s.Tallies w differ s') : s'.phase = s.phase := by rw [h.same]

theorem run (h : s.Tallies w differ s') : s'.run = s.run := by rw [h.same]

theorem issued (h : s.Tallies w differ s') : s'.issued = s.issued := by rw [h.same]

theorem note {n n' : Note} (h : s.Tallies w differ s') (hn : n.Tallies w differ n') :
    (s.note n).Tallies w differ (s'.note n') := by
  have clock := h.clock
  obtain ⟨same, threads, notes⟩ := h
  refine ⟨?_, threads, .cons ⟨clock, hn⟩ notes⟩
  rw [same]
  rfl

/-- A change that has nothing to do with threads and notes. -/
theorem change (h : s.Tallies w differ s') (f : State → State)
    (hf : ∀ s : State, ∀ threads notes, f { s with threads, notes } = { f s with threads, notes }) :
    (f s).Tallies w differ (f s') := by
  obtain ⟨same, threads, notes⟩ := h
  have hs : f s' = { f s with threads := s'.threads, notes := s'.notes } := by
    rw [same]
    exact hf _ _ _
  have kept : f s = { f s with threads := s.threads, notes := s.notes } := hf s s.threads s.notes
  have ht : (f s).threads = s.threads := by rw [kept]
  have hn : (f s).notes = s.notes := by rw [kept]
  rw [hs]
  exact ⟨rfl, by rw [ht]; exact threads, by rw [hn]; exact notes⟩

theorem clear (h : s.Tallies w differ s') : s.clear.Tallies w differ s'.clear := by
  refine h.change State.clear fun s threads notes => ?_
  unfold State.clear
  cases hp : s.polling <;> simp [hp, cancel]

theorem halt (h : s.Tallies w differ s') :
    s'.halt.1 = s.halt.1 ∧ s.halt.2.Tallies w differ s'.halt.2 := by
  constructor
  · unfold State.halt
    rw [h.run, h.phase]
    split <;> rfl
  · refine h.change (fun s => s.halt.2) fun s threads notes => ?_
    unfold State.halt
    cases hr : s.run <;> simp [hr, cancel]

theorem spawn (h : s.Tallies w differ s') {role : Role} {token : Token} {work closing : Work}
    (hw : ∀ job ∈ work, job.IsAimed w) (hc : ∀ job ∈ closing, job.IsAimed w) :
    (s.spawn role token work closing).Tallies w differ (s'.spawn role token work closing) := by
  have clock := h.clock
  obtain ⟨same, threads, notes⟩ := h
  refine ⟨?_, ?_, notes⟩
  · rw [same]
    rfl
  · refine List.rel_append threads (.cons ⟨?_, Job.tallies_self hw, hc⟩ .nil)
    rw [clock]

theorem enlist (h : s.Tallies w differ s') (o : Observer) (priority : Int32) :
    (s.enlist setup o priority).Tallies w differ (s'.enlist setup o priority) := by
  have registered : State.Tallies w differ { s with registry := s.registry.register o priority }
      { s' with registry := s'.registry.register o priority } :=
    h.change (fun s => { s with registry := s.registry.register o priority }) fun _ _ _ => rfl
  have polling : s'.isPolling = s.isPolling := by
    rw [h.same]
    rfl
  have started : (State.startPolling { s with registry := s.registry.register o priority }
      setup).Tallies w differ
      (State.startPolling { s' with registry := s'.registry.register o priority } setup) := by
    unfold startPolling
    split
    · have spawned := @registered.spawn _ _ _ _ .watcher s.issued [.watch s.issued] []
        (by simp [Job.IsAimed]) (by simp)
      have issued := registered.issued
      dsimp only at issued
      rw [issued]
      exact spawned.change (fun u => { u with polling := some s.issued, issued := s.issued + 1 })
        fun _ _ _ => rfl
    · exact registered.change (fun u => { u with polling := none }) fun _ _ _ => rfl
  show State.Tallies w differ (if s.isPolling then _ else _) (if s'.isPolling then _ else _)
  rw [polling]
  split
  · exact registered
  · exact started

end State.Tallies

namespace Outcome.Tallies

theorem guarded (h : s.Tallies w differ s') (k : Token) {next : Work}
    (hn : ∀ job ∈ next, job.IsAimed w) :
    (Job.guarded s k next).Tallies w differ (Job.guarded s' k next) := by
  simp only [Job.guarded, h.isCancelled]
  split
  · exact ⟨h, .nil, rfl⟩
  · exact ⟨h, Job.tallies_self hn, rfl⟩

end Outcome.Tallies

namespace Job

theorem isAimed_afterAction (a : Action) : ∀ job ∈ afterAction a, job.IsAimed w := by
  unfold afterAction
  split <;> simp [IsAimed]

theorem perform_tallies (h : s.Tallies w differ s') (agree : Devices.Agree differ d d')
    (step : Step) (a : Action) (since : Nat) {place : Aim} (hp : place = (a.aim.run w.find).1) :
    (perform (w.equipped d) s step a since place).Tallies w differ
      (perform (w.equipped d') s' step a since place) := by
  have upshot : a.upshot w = a.deed place := by rw [hp]; rfl
  unfold perform
  cases hd : a.deed place with
  | call c =>
    by_cases hc : differ c
    · exact ⟨h.note (.called hc), .cons (.report (upshot.trans hd) hc) .nil, rfl⟩
    · have same : ((w.equipped d').perform (.call c)).isOk = ((w.equipped d).perform (.call c)).isOk :=
        (agree c hc).symm
      simp only [same]
      exact ⟨h.note .same, .cons (.same trivial) .nil, rfl⟩
  | wait ms => exact ⟨h, .cons (.same trivial) (.cons (.same trivial) .nil), rfl⟩
  | _ => exact ⟨h, .cons (.same trivial) .nil, rfl⟩

theorem Tallies.asks (h : job.Tallies w differ job') : job'.asks = job.asks := by
  cases h <;> rfl

/-- Work that tallies leaves a state and work that tally. -/
theorem Tallies.run (hj : job.Tallies w differ job') (h : s.Tallies w differ s')
    (agree : Devices.Agree differ d d') (setup : Setup) :
    (job.run setup (w.equipped d) s).Tallies w differ (job'.run setup (w.equipped d') s') := by
  cases hj with
  | @report step a since c ok ok' upshot hc =>
    have told : Note.Tallies w differ (.event (outcomeEvent step a (s.clock - since) ok))
        (.event (outcomeEvent step a (s'.clock - since) ok')) := by
      rw [h.clock]
      exact .outcome upshot hc
    exact ⟨h.note told, Job.tallies_self (isAimed_afterAction a), rfl⟩
  | same aimed =>
    have plain {next : Work} (hn : ∀ job ∈ next, job.IsAimed w) {pause : Option UInt64} :
        Outcome.Tallies w differ ⟨s, next, pause⟩ ⟨s', next, pause⟩ := ⟨h, Job.tallies_self hn, rfl⟩
    have clock := h.clock
    have phase := h.phase
    have run := h.run
    cases job with
    | iterate r | endIteration r | enlist r o | watch k | relax k =>
      exact .guarded h _ (by simp [IsAimed])
    | iterateOpen r =>
      simp only [Job.run, phase]
      split <;> exact plain (by simp [IsAimed])
    | count r =>
      exact ⟨h.change (fun s => { s with iterations := s.iterations + 1 }) fun _ _ _ => rfl,
        Job.tallies_self (by simp [Job.run, IsAimed]), rfl⟩
    | level lane steps =>
      cases steps with
      | nil => exact plain (by simp)
      | cons step steps => exact .guarded h _ (by simp [IsAimed])
    | levelOpen lane step steps =>
      simp only [Job.run, unlessPaused, phase]
      split <;> exact plain (by simp [IsAimed])
    | enter lane step =>
      refine ⟨?_, Job.tallies_self (by simp [Job.run, IsAimed]), rfl⟩
      simp only [Job.run, enterStep]
      split
      · exact (h.note .same).change (fun s => { s with currentStep := some step.id }) fun _ _ _ => rfl
      · exact h.note .same
    | body lane step =>
      simp only [Job.run, clock]
      refine plain ?_
      cases step <;> simp [ofStep, IsAimed]
    | decide lane q thens elses =>
      cases q with
      | ask e next => exact ⟨h.note .same, Job.tallies_self (by simp [Job.run, IsAimed]), rfl⟩
      | done truth => exact plain (by simp [IsAimed])
    | aim step a since q =>
      cases q with
      | ask e next =>
        have aimed : ((next (w.find e)).run w.find).1 = (a.aim.run w.find).1 := aimed
        exact ⟨h.note .same, .cons (.same aimed) .nil, rfl⟩
      | done place =>
        have aimed : place = (a.aim.run w.find).1 := aimed
        exact ⟨h, .cons (.same aimed) .nil, rfl⟩
    | act step a since place => exact perform_tallies h agree step a since aimed
    | report step a since ok =>
      simp only [Job.run, clock]
      exact ⟨h.note .same, Job.tallies_self (isAimed_afterAction a), rfl⟩
    | enlistOpen r o => exact ⟨h.enlist o _, .nil, rfl⟩
    | rest ms => exact ⟨h, .nil, rfl⟩
    | giveWay ms => exact ⟨h, .nil, rfl⟩
    | halt =>
      simp only [Job.run, h.halt.1]
      exact ⟨h.halt.2, Job.tallies_self (by split <;> simp [IsAimed]), rfl⟩
    | clear => exact ⟨h.clear, .nil, rfl⟩
    | tell e => exact ⟨h.note .same, .nil, rfl⟩
    | settle r =>
      refine ⟨h.change (State.settle · r) fun s threads notes => ?_, .nil, rfl⟩
      unfold State.settle
      cases hr : s.run with
      | none => simp [hr]
      | some current => by_cases hk : current.token = r.token <;> simp [hr, hk]
    | survey =>
      have registry : s'.registry = s.registry := by rw [h.same]
      simp only [Job.run, registry]
      exact plain (by simp [IsAimed])
    | probe q =>
      cases q with
      | ask e next => exact ⟨h.note .same, Job.tallies_self (by simp [Job.run, IsAimed]), rfl⟩
      | done fired => exact plain (by cases fired <;> simp [IsAimed])
    | takeIn o =>
      simp only [Job.run, phase, run]
      split <;> exact plain (by simp [IsAimed])

end Job

/-! ### One step of the machine -/

namespace Thread.Tallies

theorem due (h : t.Tallies w differ t') : t'.due = t.due := by rw [h.same]

theorem role (h : t.Tallies w differ t') : t'.role = t.role := by rw [h.same]

theorem work_cases (h : t.Tallies w differ t') : t.work = [] ∧ t'.work = [] ∨
    ∃ job rest job' rest', t.work = job :: rest ∧ t'.work = job' :: rest' ∧
      job.Tallies w differ job' ∧ List.Forall₂ (Job.Tallies w differ) rest rest' := by
  have work := h.work
  cases hw : t.work with
  | nil =>
    rw [hw, List.forall₂_nil_left_iff] at work
    exact .inl ⟨rfl, work⟩
  | cons job rest =>
    rw [hw] at work
    obtain ⟨job', rest', hj, hr, hw'⟩ := List.forall₂_cons_left_iff.mp work
    exact .inr ⟨job, rest, job', rest', rfl, hw', hj, hr⟩

theorem isReady (h : t.Tallies w differ t') (hs : s.Tallies w differ s') :
    t'.isReady s' = t.isReady s := by
  have cancelled : s'.isCancelled = s.isCancelled := funext hs.isCancelled
  unfold Thread.isReady
  rw [h.same, hs.clock, cancelled]

theorem resume (h : t.Tallies w differ t') (hs : s.Tallies w differ s') :
    (t.resume s).Tallies w differ (t'.resume s') := by
  obtain ⟨same, work, closing⟩ := h
  rw [same]
  unfold Thread.resume
  dsimp only
  split
  · rename_i k _
    rw [hs.isCancelled]
    split
    · exact ⟨rfl, Job.tallies_self closing, closing⟩
    · exact ⟨rfl, work, closing⟩
  · exact ⟨rfl, work, closing⟩

theorem advance (h : t.Tallies w differ t') {o o' : Outcome} (ho : o.Tallies w differ o')
    {rest rest' : Work} (hr : List.Forall₂ (Job.Tallies w differ) rest rest') :
    (t.advance o rest).Tallies w differ (t'.advance o' rest') := by
  obtain ⟨same, -, closing⟩ := h
  refine ⟨?_, List.rel_append ho.next hr, closing⟩
  rw [same]
  rfl

end Thread.Tallies

theorem Thread.Tallies.await (h : t.Tallies w differ t') (due : Nat) :
    Thread.Tallies w differ { t with due } { t' with due } := by
  obtain ⟨same, work, closing⟩ := h
  exact ⟨by rw [same], work, closing⟩

namespace State.Tallies

theorem line (h : s.Tallies w differ s') {threads threads' : List Thread}
    (ht : List.Forall₂ (Thread.Tallies w differ) threads threads') :
    State.Tallies w differ { s with threads } { s' with threads := threads' } :=
  ⟨by rw [h.same], ht, h.notes⟩

theorem enqueue (h : s.Tallies w differ s') (ht : t.Tallies w differ t') :
    (s.enqueue t).Tallies w differ (s'.enqueue t') := by
  refine h.line ?_
  rw [ht.role]
  split
  · exact .cons ht h.threads
  · exact List.rel_append h.threads (.cons ht .nil)

end State.Tallies

/-- What is asked from outside tallies too. -/
theorem Intervention.tallies_take (h : s.Tallies w differ s') (i : Intervention) :
    (i.take setup s).2.Tallies w differ (i.take setup s').2 := by
  have change (before after : Phase) (e : Event) :
      (s.change before after e).2.Tallies w differ (s'.change before after e).2 := by
    have phase := h.phase
    unfold State.change State.transition
    rw [phase]
    by_cases hp : s.phase = before
    · rw [if_pos hp, if_pos hp]
      exact (h.change (fun s => { s with phase := after }) fun _ _ _ => rfl).note .same
    · rw [if_neg hp, if_neg hp]
      exact h
  cases i with
  | start script =>
    have phase := h.phase
    have issued := h.issued
    simp only [take, State.start, State.openRun, phase]
    split
    · by_cases hp : s.phase = .idle
      · simp only [if_pos hp, issued]
        have opened := h.change (fun u => { u with
          phase := .running, script := some script.withDefaults, currentStep := none,
          iterations := 0, run := some ⟨s.issued, script.withDefaults⟩,
          issued := s.issued + 1 }) fun _ _ _ => rfl
        exact (opened.note .same).spawn (by simp [State.closing, Job.IsAimed])
          (by simp [State.closing, Job.IsAimed])
      · simp only [if_neg hp]
        exact h
    · exact h
  | pause => exact change _ _ _
  | resume => exact change _ _ _
  | stop =>
    simp only [take, State.stop, h.halt.1]
    split
    · exact h.halt.2.clear.note .same
    · exact h.halt.2.clear

/-- By the same choice the same happens, but for how requests went. -/
theorem Moment.Tallies.next (h : m.Tallies w differ m') (agree : Devices.Agree differ d d')
    (setup : Setup) (c : Choice) :
    Option.Rel (fun a b => a.1.Tallies w differ b.1 ∧ a.2.Tallies w differ b.2)
      (m.next setup (w.equipped d) c) (m'.next setup (w.equipped d') c) := by
  obtain ⟨s, active⟩ := m
  obtain ⟨s', active'⟩ := m'
  obtain ⟨hs, ha⟩ := h
  cases ha with
  | none =>
    cases c with
    | ask i => exact .some ⟨.asked i, i.tallies_take hs, .none⟩
    | pass ms =>
      have clock : s'.clock = s.clock := hs.clock
      have passed := hs.change (fun u => { u with clock := s.clock + ms }) fun _ _ _ => rfl
      simp only [next, clock]
      exact .some ⟨.shifted, passed, .none⟩
    | turn place =>
      have line : List.Forall₂ (Thread.Tallies w differ) (s.threads.drop place)
          (s'.threads.drop place) := List.forall₂_drop place hs.threads
      simp only [next]
      cases hd : s.threads.drop place with
      | nil =>
        rw [hd, List.forall₂_nil_left_iff] at line
        rw [line]
        exact .none
      | cons t after =>
        rw [hd] at line
        obtain ⟨t', after', ht, hafter, hd'⟩ := List.forall₂_cons_left_iff.mp line
        rw [hd']
        simp only [ht.isReady hs]
        split
        · have before := List.forall₂_take place hs.threads
          exact .some ⟨.shifted, hs.line (List.rel_append before hafter), .some (ht.resume hs)⟩
        · exact .none
    | go | await due => exact .none
  | @some t t' ht =>
    cases c with
    | go =>
      simp only [next]
      rcases ht.work_cases with ⟨hw, hw'⟩ | ⟨job, rest, job', rest', hw, hw', hj, hr⟩
      · rw [hw, hw']
        exact .some ⟨.shifted, hs, .none⟩
      · have done := hj.run hs agree setup
        have clock : s'.clock = s.clock := hs.clock
        rw [hw, hw']
        simp only [done.pause, clock]
        split
        · exact .some ⟨.worked agree hs ht hj, done.state, .some (ht.advance done hr)⟩
        · exact .some ⟨.worked agree hs ht hj, done.state.enqueue ((ht.advance done hr).await _), .none⟩
    | await due =>
      simp only [next]
      rcases ht.work_cases with ⟨hw, hw'⟩ | ⟨job, rest, job', rest', hw, hw', hj, hr⟩
      · rw [hw, hw']
        exact .none
      · have done := hj.run hs agree setup
        rw [hw, hw']
        simp only [hj.asks]
        split
        · exact .some ⟨.worked agree hs ht hj, done.state.enqueue ((ht.advance done hr).await _), .none⟩
        · exact .none
    | ask i | pass ms | turn place => exact .none

/-! ### Runs with different devices -/

/-- What happens when the choices are made one after the other, each with what the devices answer then. -/
def Moment.replay (setup : Setup) (w : World) :
    Moment → List (Choice × Devices) → Option (List Happening × Moment)
  | m, [] => some ([], m)
  | m, (c, devices) :: cs =>
    match m.next setup (w.equipped devices) c with
    | none => none
    | some (h, m') => (replay setup w m' cs).map fun (hs, m) => (h :: hs, m)

/-- Two runs that tally, as far as they have come. -/
structure Tally (w : World) (differ : Call → Prop) (a b : List Happening × Moment) : Prop where
  happenings : List.Forall₂ (Happening.Tallies w differ) a.1 b.1
  moment : a.2.Tallies w differ b.2

/-- The requests that are answered differently at some time. -/
def differing (cs : List (Choice × Devices × Devices)) (c : Call) : Prop :=
  ∃ e ∈ cs, (e.2.1 c).isOk ≠ (e.2.2 c).isOk

theorem Moment.Tallies.replay (h : m.Tallies w differ m') (setup : Setup)
    (cs : List (Choice × Devices × Devices))
    (agree : ∀ e ∈ cs, Devices.Agree differ e.2.1 e.2.2) :
    Option.Rel (Tally w differ) (m.replay setup w (cs.map fun e => (e.1, e.2.1)))
      (m'.replay setup w (cs.map fun e => (e.1, e.2.2))) := by
  induction cs generalizing m m' with
  | nil => exact .some ⟨.nil, h⟩
  | cons e cs ih =>
    obtain ⟨first, others⟩ := List.forall_mem_cons.mp agree
    have next := h.next first setup e.1
    simp only [List.map_cons, Moment.replay]
    generalize m.next setup (w.equipped e.2.1) e.1 = n at next ⊢
    generalize m'.next setup (w.equipped e.2.2) e.1 = n' at next ⊢
    cases next with
    | none => exact .none
    | @some a b both =>
      have rest := ih both.2 others
      dsimp only
      generalize a.2.replay setup w (cs.map fun e => (e.1, e.2.1)) = r at rest ⊢
      generalize b.2.replay setup w (cs.map fun e => (e.1, e.2.2)) = r' at rest ⊢
      cases rest with
      | none => exact .none
      | some tally => exact .some ⟨.cons both.1 tally.happenings, tally.moment⟩

/-- Work that tallies shows the same, but for how requests went. -/
theorem Job.Tallies.mark (hj : job.Tallies w differ job') (agree : Devices.Agree differ d d') :
    Option.Rel (Mark.Tallies w differ) (job.mark (w.equipped d)) (job'.mark (w.equipped d')) := by
  have self (mark : Option Mark) : Option.Rel (Mark.Tallies w differ) mark mark := by
    cases mark with
    | none => exact .none
    | some mark => exact .some .same
  cases hj with
  | report upshot hc => exact .some (.reported upshot hc)
  | same aimed =>
    cases job with
    | act step a since place =>
      simp only [Job.mark]
      cases hd : a.deed place with
      | call c =>
        by_cases hc : differ c
        · exact .some (.did hc)
        · have same : ((w.equipped d').perform (.call c)).isOk =
              ((w.equipped d).perform (.call c)).isOk := (agree c hc).symm
          simp only [same]
          exact self _
      | _ => exact self _
    | decide lane q thens elses | aim step a since q | probe q => cases q <;> exact self _
    | tell e => cases e <;> exact self _
    | _ => exact self _

theorem Happening.Tallies.mark? {e e' : Happening} (h : e.Tallies w differ e') :
    Option.Rel (Mark.Tallies w differ) e.mark? e'.mark? := by
  cases h with
  | asked | shifted => exact .none
  | worked agree _ _ hj => exact hj.mark agree

theorem Moment.tallies_fresh : Moment.fresh.Tallies w differ .fresh := ⟨⟨rfl, .nil, .nil⟩, .none⟩

/-- Two runs on the same screen and with the same choices go the same way, whatever the mouse and the
keyboard answer in each: one comes as far as the other; the same pieces of work are done in the same
order, so that the same steps are entered, the same elements looked for, the same requests made, the
same branches taken, the same observers registered and the same run stopped; and what is shown and told
differs at most in whether a request went well that is answered differently. -/
theorem Moment.isolated (setup : Setup) (w : World) (cs : List (Choice × Devices × Devices)) :
    Option.Rel
      (fun a b => Tally w (differing cs) a b ∧
        List.Forall₂ (Mark.Tallies w (differing cs)) (a.1.filterMap Happening.mark?)
          (b.1.filterMap Happening.mark?))
      (fresh.replay setup w (cs.map fun e => (e.1, e.2.1)))
      (fresh.replay setup w (cs.map fun e => (e.1, e.2.2))) := by
  have agree : ∀ e ∈ cs, Devices.Agree (differing cs) e.2.1 e.2.2 := by
    intro e he c hc
    exact Decidable.not_not.mp fun differ => hc ⟨e, he, differ⟩
  have tally := (@tallies_fresh w (differing cs)).replay setup cs agree
  generalize fresh.replay setup w (cs.map fun e => (e.1, e.2.1)) = a at tally ⊢
  generalize fresh.replay setup w (cs.map fun e => (e.1, e.2.2)) = b at tally ⊢
  cases tally with
  | none => exact .none
  | some both =>
    exact .some ⟨both, List.rel_filterMap (fun _ _ h => h.mark?) both.happenings⟩

def Mark.did? : Mark → Option (Deed × Bool)
  | .did deed ok => some (deed, ok)
  | _ => none

/-- A script that types two texts, once where both can be typed and once where the first cannot. -/
theorem isolated_typing :
    ∃ w cs a b, Moment.fresh.replay ⟨{}, 500, true⟩ w (cs.map fun e => (e.1, e.2.1)) = some a ∧
      Moment.fresh.replay ⟨{}, 500, true⟩ w (cs.map fun e => (e.1, e.2.2)) = some b ∧
      Tally w (differing cs) a b ∧
      (a.1.filterMap Happening.mark?).filterMap Mark.did? =
        [(.call (.typeText "a"), true), (.call (.typeText "b"), true)] ∧
      (b.1.filterMap Happening.mark?).filterMap Mark.did? =
        [(.call (.typeText "a"), false), (.call (.typeText "b"), true)] := by
  let typing (id text : String) : Step :=
    .action ⟨id, none, none, none⟩ (.keyboard (.typeText text))
  let script : Script := { (default : Script) with
    name := "typing", steps := [typing "first" "a", typing "second" "b"] }
  let w : World := ⟨fun _ => .ok none, fun _ => .ok (), fun _ _ => .ok (), fun _ => .ok ()⟩
  let failing : Devices := fun c =>
    if c = .typeText "a" then .error (.input "failed") else .ok ()
  let choices : List Choice := [.ask (.start script), .turn 0] ++ List.replicate 20 .go
  let cs : List (Choice × Devices × Devices) := choices.map fun c => (c, w.input, failing)
  let shows (r : Option (List Happening × Moment)) (did : List (Deed × Bool)) : Bool :=
    r.any fun a => (a.1.filterMap Happening.mark?).filterMap Mark.did? == did
  have first : shows (Moment.fresh.replay ⟨{}, 500, true⟩ w (cs.map fun e => (e.1, e.2.1)))
      [(.call (.typeText "a"), true), (.call (.typeText "b"), true)] = true := by decide +kernel
  have second : shows (Moment.fresh.replay ⟨{}, 500, true⟩ w (cs.map fun e => (e.1, e.2.2)))
      [(.call (.typeText "a"), false), (.call (.typeText "b"), true)] = true := by decide +kernel
  obtain ⟨a, ha, hda⟩ := (Option.any_eq_true _ _).mp first
  obtain ⟨b, hb, hdb⟩ := (Option.any_eq_true _ _).mp second
  have isolated := Moment.isolated ⟨{}, 500, true⟩ w cs
  rw [ha, hb] at isolated
  cases isolated with
  | some both => exact ⟨w, cs, a, b, ha, hb, both.1, by simpa using hda, by simpa using hdb⟩

/-! ### Every course is a replay -/

/-- Whether the happening takes place on the screen and the system of the world. -/
def Happening.IsOn (w : World) (e : Happening) : Prop :=
  ∀ w' s t job, e = .worked w' s t job → w' = w.equipped w'.input

theorem Moment.Step.next {e : Happening} (st : m.Step setup e m') (on : e.IsOn w) :
    ∃ c d, m.next setup (w.equipped d) c = some (e, m') := by
  have equipped {w' : World} {s : State} {t : Thread} {job : Job} (he : e = .worked w' s t job) :
      w.equipped w'.input = w' := (on w' s t job he).symm
  cases st with
  | ask s i => exact ⟨.ask i, w.input, rfl⟩
  | pass s ms => exact ⟨.pass ms, w.input, rfl⟩
  | @turn s before after t hs ready =>
    refine ⟨.turn before.length, w.input, ?_⟩
    simp [Moment.next, hs, ready]
  | work w' hw hp =>
    refine ⟨.go, w'.input, ?_⟩
    rw [equipped rfl]
    simp [Moment.next, hw, hp]
  | wait w' hw hp =>
    refine ⟨.go, w'.input, ?_⟩
    rw [equipped rfl]
    simp [Moment.next, hw, hp]
  | await w' due hw ha =>
    refine ⟨.await due, w'.input, ?_⟩
    rw [equipped rfl]
    simp [Moment.next, hw, ha]
  | leave hw =>
    refine ⟨.go, w.input, ?_⟩
    simp [Moment.next, hw]

theorem Moment.replay_concat {cs : List (Choice × Devices)} {c : Choice} {e : Happening}
    {hs : List Happening} {m₁ : Moment} (h : m.replay setup w cs = some (hs, m₁))
    (hn : m₁.next setup (w.equipped d) c = some (e, m')) :
    m.replay setup w (cs ++ [(c, d)]) = some (hs ++ [e], m') := by
  induction cs generalizing m hs with
  | nil =>
    cases h
    simp [replay, hn]
  | cons first cs ih =>
    simp only [replay] at h
    split at h
    · cases h
    · rename_i e₁ m₂ h₁
      obtain ⟨⟨hs', m₃⟩, h', he⟩ := Option.map_eq_some_iff.mp h
      cases he
      simp [replay, h₁, ih h']

/-- On one screen and system every course is replayed by the choices that were made in it and the answers
that were given. -/
theorem Course.exists_replay {hs : List Happening} (c : Course setup m hs m')
    (on : ∀ e ∈ hs, e.IsOn w) : ∃ cs, m.replay setup w cs = some (hs, m') := by
  induction c with
  | refl => exact ⟨[], rfl⟩
  | snoc c st ih =>
    obtain ⟨cs, replays⟩ := ih fun e he => on e (List.mem_append_left _ he)
    obtain ⟨choice, devices, next⟩ := st.next (on _ (by simp))
    exact ⟨_, Moment.replay_concat replays next⟩

end DeskScript
