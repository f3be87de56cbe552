import DeskScript.Proofs.Confinement
import DeskScript.Proofs.Loop
import DeskScript.Proofs.Vetting

/-! Observers go beside the loop of a run and leave it alone: unless one of them stops the run, the loop
does what it would do if they were never looked at. -/

namespace DeskScript

/-! ### Steps that stop no run -/

mutual

/-- Whether the step stops no run, nor any step inside it. What is outside of observers may do so where
that is `allowed`. -/
def Step.spares (allowed : Bool) : Step → Bool
  | .action _ a => allowed || !a.isStop
  | .conditional _ _ thens elses => Forest.spares allowed thens && Forest.spares allowed elses
  | .observer _ _ steps => Forest.spares false steps
  | .group _ _ steps => Forest.spares allowed steps

def Forest.spares (allowed : Bool) : List Step → Bool
  | [] => true
  | s :: steps => s.spares allowed && Forest.spares allowed steps

end

namespace Job

/-- Whether the work is that of a loop, or else that of an observer, and neither stops the run nor leads
there, but for what the loop itself does. -/
def IsTame (own : Bool) : Job → Prop
  | .iterate r | .iterateOpen r | .endIteration r | .count r =>
    own = true ∧ Forest.spares true r.script.steps = true
  | .level lane steps => lane.foreground = own ∧ Forest.spares own steps = true
  | .levelOpen lane step steps => lane.foreground = own ∧ Forest.spares own (step :: steps) = true
  | .enter lane step | .body lane step => lane.foreground = own ∧ step.spares own = true
  | .decide lane _ thens elses =>
    lane.foreground = own ∧ Forest.spares own thens = true ∧ Forest.spares own elses = true
  | .aim _ a _ _ | .act _ a _ _ | .report _ a _ _ => (own || !a.isStop) = true
  | .enlist _ o | .enlistOpen _ o => Forest.spares false o.steps = true
  | .halt | .clear | .settle _ => own = true
  | .watch _ | .survey | .relax _ => own = false
  | .probe q => own = false ∧ q.Asks (fun _ => True) fun fired =>
      ∀ o ∈ fired, Forest.spares false o.steps = true
  | .takeIn o => own = false ∧ Forest.spares false o.steps = true
  | .rest _ | .giveWay _ | .tell _ => True

/-- Tame work leaves only tame work to be done. -/
theorem IsTame.next {own : Bool} {job : Job} (h : job.IsTame own) (setup : Setup) (w : World)
    {s : State} (registry : ∀ e ∈ s.registry.entries, Forest.spares false e.observer.steps = true) :
    ∀ j ∈ (job.run setup w s).next, j.IsTame own := by
  have only {j : Job} (hj : j.IsTame own) : ∀ j' ∈ [j], j'.IsTame own := by simpa using hj
  cases job with
  | iterate r | endIteration r | enlist r o =>
    simp only [run, guarded]
    split
    · simp
    · exact only h
  | iterateOpen r =>
    obtain ⟨rfl, hr⟩ := h
    simp only [run]
    split <;> simp [IsTame, hr]
  | count r => simpa [run, IsTame] using h
  | level lane steps =>
    cases steps with
    | nil => simp [run]
    | cons step steps =>
      simp only [run, guarded]
      split
      · simp
      · exact only h
  | levelOpen lane step steps =>
    obtain ⟨hl, hs⟩ := h
    rw [Forest.spares, Bool.and_eq_true] at hs
    simp only [run, unlessPaused]
    split <;> simp [IsTame, hl, hs]
  | enter lane step => simpa [run, IsTame] using h
  | body lane step =>
    obtain ⟨hl, hs⟩ := h
    cases step with
    | action hd a => exact only hs
    | conditional hd c thens elses =>
      rw [Step.spares, Bool.and_eq_true] at hs
      exact only ⟨hl, hs⟩
    | observer hd c steps => exact only hs
    | group hd name steps => exact only ⟨hl, hs⟩
  | decide lane q thens elses =>
    cases q with
    | ask e next => exact only h
    | done truth =>
      refine only ⟨h.1, ?_⟩
      unfold branch
      split
      · exact h.2.1
      · exact h.2.2
      · rfl
  | aim step action since q => cases q <;> exact only h
  | act step action since place =>
    simp only [run, perform]
    split <;> simpa [IsTame] using h
  | report step action since ok =>
    simp only [run, afterAction]
    split
    · have stops : own = true := by simpa [IsTame, Action.isStop] using h
      exact only stops
    · simp
  | halt =>
    simp only [run]
    split <;> simpa [IsTame] using h
  | watch k | relax k =>
    simp only [run, guarded]
    split
    · simp
    · simpa [IsTame] using h
  | survey =>
    refine only ⟨h, Registry.asks_scan fun e he => ⟨fun _ _ => trivial, ?_⟩⟩
    exact registry e (Registry.mem_candidates.mp he).1
  | probe q =>
    cases q with
    | ask e next => exact only ⟨h.1, h.2.2 _⟩
    | done fired =>
      cases fired with
      | none => simp [run]
      | some o => exact only ⟨h.1, h.2 o rfl⟩
  | takeIn o =>
    obtain ⟨rfl, ho⟩ := h
    simp only [run]
    split <;> simp [IsTame, ho]
  | enlistOpen | rest | giveWay | clear | tell | settle => simp [run]

end Job

/-! ### Moments at which no observer stops the run -/

/-- Whether the thread is the loop of a run. -/
def Thread.isOwn (t : Thread) : Bool := t.role == .foreground

/-- What the thread does is tame, and so is what it does when it is dropped. -/
def Thread.IsTame (t : Thread) : Prop := ∀ job ∈ t.work ++ t.closing, job.IsTame t.isOwn

/-- No observer stops the run, whether it is registered or has fired. What is to be dropped does not
count. -/
structure Moment.IsTame (m : Moment) : Prop where
  registry : ∀ e ∈ m.state.registry.entries, Forest.spares false e.observer.steps = true
  line : ∀ t ∈ m.state.threads, (t.token.any m.state.isCancelled = false → t.IsTame) ∧
    ∀ job ∈ t.closing, job.IsTame t.isOwn
  active : ∀ t, m.active = some t → t.IsTame

variable {setup : Setup} {w : World} {s : State} {t : Thread} {job : Job} {rest : Work}
  {m m' : Moment} {e : Happening} {hs : List Happening}

theorem Thread.IsTame.closing (h : t.IsTame) : ∀ job ∈ t.closing, job.IsTame t.isOwn :=
  fun job hj => h job (List.mem_append_right _ hj)

theorem Thread.IsTame.head (h : t.IsTame) (hw : t.work = job :: rest) : job.IsTame t.isOwn :=
  h job (by simp [hw])

theorem Thread.isTame_watcher (k : Token) (due : Nat) : (Thread.watcher k due).IsTame := by
  simp [Thread.IsTame, watcher, Job.IsTame, isOwn]

theorem Thread.IsTame.advance (h : t.IsTame) (hw : t.work = job :: rest)
    (registry : ∀ e ∈ s.registry.entries, Forest.spares false e.observer.steps = true) :
    (t.advance (job.run setup w s) rest).IsTame := by
  intro j hj
  rcases List.mem_append.mp hj with hj | hj
  · rcases List.mem_append.mp hj with hj | hj
    · exact (h.head hw).next setup w registry j hj
    · exact h j (by simp [hw, hj])
  · exact h.closing j hj

namespace Moment.IsTame

/-- The registry stays tame under tame work. -/
theorem registry_run (h : m.IsTame) {own : Bool} (hj : job.IsTame own) :
    ∀ e ∈ (job.run setup w m.state).state.registry.entries,
      Forest.spares false e.observer.steps = true := by
  intro e he
  rw [Job.registry_run] at he
  cases hc : job.change? with
  | none =>
    rw [hc] at he
    exact h.registry e he
  | some change =>
    rw [hc] at he
    rcases Registry.mem_apply he with ⟨priority, rfl⟩ | ⟨e', he', same, -⟩
    · cases job with
      | enlistOpen r o =>
        cases hc
        exact hj
      | _ => cases hc
    · exact same ▸ h.registry e' he'

/-- Threads in line stay tame under work, and those that come are. -/
theorem line_run (h : m.IsTame) (job : Job) : ∀ t ∈ (job.run setup w m.state).state.threads,
    (t.token.any (job.run setup w m.state).state.isCancelled = false → t.IsTame) ∧
      ∀ job ∈ t.closing, job.IsTame t.isOwn := by
  intro t ht
  obtain ⟨new, hn, watchers⟩ := job.threads_run setup w m.state
  rw [hn] at ht
  rcases List.mem_append.mp ht with ht | ht
  · obtain ⟨work, closing⟩ := h.line t ht
    refine ⟨fun goes => work ?_, closing⟩
    cases hk : t.token with
    | none => rfl
    | some k =>
      rw [hk] at goes
      exact (job.later_run setup w m.state).live goes
  · obtain ⟨k, due, rfl⟩ := watchers t ht
    have tame := Thread.isTame_watcher k due
    exact ⟨fun _ => tame, tame.closing⟩

theorem enqueue (registry : ∀ e ∈ s.registry.entries, Forest.spares false e.observer.steps = true)
    (line : ∀ t ∈ s.threads, (t.token.any s.isCancelled = false → t.IsTame) ∧
      ∀ job ∈ t.closing, job.IsTame t.isOwn) (tame : t.IsTame) : IsTame ⟨s.enqueue t, none⟩ := by
  refine ⟨registry, fun u hu => ?_, by simp⟩
  rcases mem_enqueue.mp hu with rfl | hu
  · exact ⟨fun _ => tame, tame.closing⟩
  · exact line u hu

/-- As long as nothing is asked from outside, every moment stays tame. -/
theorem step (h : m.IsTame) (st : m.Step setup e m') (unasked : ∀ i, e ≠ .asked i) : m'.IsTame := by
  cases st with
  | ask s i => exact absurd rfl (unasked i)
  | pass s ms => exact ⟨h.registry, h.line, by simp⟩
  | @turn s before after t hs ready =>
    have mem {u : Thread} (hu : u ∈ before ++ after) : u ∈ s.threads := by
      rw [hs]
      exact (List.mem_append.mp hu).elim (List.mem_append_left _) fun hu => by simp [hu]
    refine ⟨h.registry, fun u hu => h.line u (mem hu), ?_⟩
    rintro _ ⟨⟩
    obtain ⟨work, closing⟩ := h.line t (by simp [hs])
    unfold Thread.resume
    split
    · rename_i k hk
      split
      · intro job hj
        exact closing job (by simpa using hj)
      · rename_i goes
        exact work (by simpa [hk] using goes)
    · rename_i hk
      exact work (by simp [hk])
  | @work w s t job rest hw hp =>
    have tame := h.active t rfl
    refine ⟨h.registry_run (tame.head hw), h.line_run job, ?_⟩
    rintro _ ⟨⟩
    exact tame.advance hw h.registry
  | @wait w s t job rest ms hw hp =>
    have tame := h.active t rfl
    exact enqueue (h.registry_run (tame.head hw)) (h.line_run job) (tame.advance hw h.registry)
  | @await w due s t job rest hw ha =>
    have tame := h.active t rfl
    exact enqueue (h.registry_run (tame.head hw)) (h.line_run job) (tame.advance hw h.registry)
  | leave hw => exact ⟨h.registry, h.line, by simp⟩

end Moment.IsTame

/-! ### What concerns the loop -/

/-- The state as far as it concerns the loop: without observers, the threads that look at them, and what
was told. -/
def State.own (s : State) : State :=
  { s with registry := {}, threads := s.threads.filter Thread.isOwn, notes := [] }

namespace State

theorem own_line (s : State) (threads : List Thread) :
    State.own { s with threads } = { s.own with threads := threads.filter Thread.isOwn } := rfl

theorem own_enqueue (s : State) (ht : t.isOwn = true) :
    (s.enqueue t).own = { s.own with threads := s.own.threads ++ [t] } := by
  have role : t.role = .foreground := by simpa [Thread.isOwn] using ht
  simp [enqueue, own, role, ht]

theorem own_enqueue_other (s : State) (ht : t.isOwn = false) : (s.enqueue t).own = s.own := by
  unfold enqueue own
  dsimp only
  split <;> simp [ht]

/-- A thread that polls the observers does not concern the loop. -/
theorem own_spawn (s : State) (token : Token) (work closing : Work) :
    (s.spawn .watcher token work closing).own = s.own := by
  simp [spawn, own, Thread.isOwn]

variable {q : State}

/-- What does not look beyond what concerns the loop. -/
theorem field_of_own {α : Type} (f : State → α) (hf : ∀ s : State, f s.own = f s)
    (h : q.own = s.own) : f q = f s := by
  rw [← hf q, h, hf]

/-- A change to what concerns the loop. -/
theorem change_of_own (f : State → State) (hf : ∀ s : State, (f s).own = f s.own)
    (h : q.own = s.own) : (f q).own = (f s).own := by
  rw [hf, h, hf]

theorem enqueue_of_own (h : q.own = s.own) (t : Thread) : (q.enqueue t).own = (s.enqueue t).own := by
  cases ht : t.isOwn with
  | true => rw [own_enqueue q ht, own_enqueue s ht, h]
  | false => rw [own_enqueue_other q ht, own_enqueue_other s ht, h]

theorem own_clear (h : q.own = s.own) : q.clear.own = s.clear.own := by
  have polling := field_of_own State.polling (fun _ => rfl) h
  unfold clear
  rw [polling]
  cases s.polling with
  | none => exact change_of_own (fun u => { u with registry := {}, polling := none }) (fun _ => rfl) h
  | some k =>
    exact change_of_own (fun u => { u.cancel k with registry := {}, polling := none }) (fun _ => rfl) h

theorem own_halt (h : q.own = s.own) : q.halt.1 = s.halt.1 ∧ q.halt.2.own = s.halt.2.own := by
  have run := field_of_own State.run (fun _ => rfl) h
  have phase := field_of_own State.phase (fun _ => rfl) h
  unfold halt
  rw [run, phase]
  cases s.run with
  | none => exact ⟨rfl, change_of_own (fun u => { u with phase := .idle, run := none }) (fun _ => rfl) h⟩
  | some r =>
    exact ⟨rfl, change_of_own (fun u => { u.cancel r.token with phase := .stopped })
      (fun _ => rfl) h⟩

theorem own_settle (h : q.own = s.own) (r : Run) : (q.settle r).own = (s.settle r).own := by
  have run := field_of_own State.run (fun _ => rfl) h
  unfold settle
  rw [run]
  cases s.run with
  | none => exact h
  | some current =>
    dsimp only
    split
    · exact change_of_own (fun u => { u with run := none, phase := .idle }) (fun _ => rfl) h
    · exact h

theorem own_startPolling (s : State) (setup : Setup) : (s.startPolling setup).own =
    if setup.hasRuntime then { s.own with polling := some s.issued, issued := s.issued + 1 }
    else { s.own with polling := none } := by
  unfold startPolling
  split
  · have spawned := s.own_spawn s.issued [.watch s.issued] []
    exact congrArg (fun u : State => { u with polling := some s.issued, issued := s.issued + 1 })
      spawned
  · rfl

theorem own_enlist (h : q.own = s.own) (setup : Setup) (o : Observer) (priority : Int32) :
    (q.enlist setup o priority).own = (s.enlist setup o priority).own := by
  have polling := field_of_own State.isPolling (fun _ => rfl) h
  have issued := field_of_own State.issued (fun _ => rfl) h
  show State.own (if q.isPolling then _ else _) = State.own (if s.isPolling then _ else _)
  rw [polling]
  split
  · exact h
  · have same : State.own { q with registry := q.registry.register o priority } =
        State.own { s with registry := s.registry.register o priority } := h
    rw [own_startPolling, own_startPolling, same]
    dsimp only
    rw [issued]

/-- Where the observers are polled, registering one more does not concern the loop. -/
theorem own_enlist_polling (hp : s.isPolling = true) (setup : Setup) (o : Observer)
    (priority : Int32) : (s.enlist setup o priority).own = s.own := by
  show State.own (if s.isPolling then _ else _) = s.own
  rw [if_pos hp]
  rfl

end State

namespace Job

/-- What the loop does depends only on what concerns it. -/
theorem own_run {q : State} (h : q.own = s.own) (hj : job.IsTame true) (setup : Setup) (w : World) :
    (job.run setup w q).state.own = (job.run setup w s).state.own ∧
      (job.run setup w q).next = (job.run setup w s).next ∧
      (job.run setup w q).pause = (job.run setup w s).pause := by
  have live (k : Token) : q.isCancelled k = s.isCancelled k :=
    State.field_of_own (State.isCancelled · k) (fun _ => rfl) h
  have phase := State.field_of_own State.phase (fun _ => rfl) h
  have clock := State.field_of_own State.clock (fun _ => rfl) h
  cases job with
  | iterate r | endIteration r | enlist r o =>
    simp only [run, guarded, live]
    split <;> exact ⟨h, rfl, rfl⟩
  | iterateOpen r =>
    simp only [run, phase]
    split <;> exact ⟨h, rfl, rfl⟩
  | count r =>
    refine ⟨?_, rfl, rfl⟩
    exact State.change_of_own (fun u => { u with iterations := u.iterations + 1 }) (fun _ => rfl) h
  | level lane steps =>
    cases steps with
    | nil => exact ⟨h, rfl, rfl⟩
    | cons step steps =>
      simp only [run, guarded, live]
      split <;> exact ⟨h, rfl, rfl⟩
  | levelOpen lane step steps =>
    simp only [run, unlessPaused, phase]
    split <;> exact ⟨h, rfl, rfl⟩
  | enter lane step =>
    simp only [run, enterStep, and_true]
    split
    · exact State.change_of_own (fun u => { u with currentStep := some step.id }) (fun _ => rfl) h
    · exact h
  | body lane step =>
    simp only [run, clock, and_true]
    exact h
  | decide lane q' thens elses | aim step action since q' => cases q' <;> exact ⟨h, rfl, rfl⟩
  | act step action since place =>
    simp only [run, perform, and_true]
    cases action.deed place <;> exact h
  | halt =>
    obtain ⟨stopped, rest⟩ := State.own_halt h
    simp only [run, stopped, and_true]
    exact rest
  | clear => exact ⟨State.own_clear h, rfl, rfl⟩
  | settle r => exact ⟨State.own_settle h r, rfl, rfl⟩
  | enlistOpen r o => exact ⟨State.own_enlist h setup o _, rfl, rfl⟩
  | watch | survey | relax => cases hj
  | probe | takeIn => cases hj.1
  | report | rest | giveWay | tell => exact ⟨h, rfl, rfl⟩

/-- Observers leave alone what concerns the loop. -/
theorem own_run_other (hj : job.IsTame false) (setup : Setup) (w : World) (s : State)
    (polled : ∀ r o, job = .enlistOpen r o → s.isPolling = true) :
    (job.run setup w s).state.own = s.own := by
  cases job with
  | enlistOpen r o => exact State.own_enlist_polling (polled r o rfl) setup o _
  | enter lane step =>
    simp only [run, enterStep, hj.1]
    rfl
  | level lane steps =>
    cases steps with
    | nil => rfl
    | cons step steps =>
      simp only [run, guarded]
      split <;> rfl
  | enlist r o | watch k | relax k =>
    simp only [run, guarded]
    split <;> rfl
  | levelOpen lane step steps =>
    simp only [run, unlessPaused]
    split <;> rfl
  | decide lane q thens elses | aim step action since q | probe q => cases q <;> rfl
  | act step action since place =>
    simp only [run, perform]
    cases action.deed place <;> rfl
  | takeIn o =>
    simp only [run]
    split <;> rfl
  | iterate | iterateOpen | endIteration | count => cases hj.1
  | halt | clear | settle => cases hj
  | body | report | rest | giveWay | tell | survey => rfl

end Job

/-- A thread that is not a loop registers an observer only while the observers are polled. -/
theorem Moment.Sound.polls {r : Run} {o : Observer} (sound : Sound ⟨s, some t⟩)
    (hw : t.work = .enlistOpen r o :: rest) (other : t.isOwn = false) : s.isPolling = true := by
  rcases sound.active t rfl with hn | ⟨⟨lane, k, serves, grants, -, live⟩, -⟩ | ⟨r', past⟩
  · rw [hw] at hn
    cases hn
  · have role := serves.role
    have own := grants.own
    cases hf : lane.foreground with
    | true =>
      rw [hf] at role
      simp [Thread.isOwn, role] at other
    | false =>
      rw [hf] at own
      have polling : s.polling = some k := own
      simp [State.isPolling, polling, live]
  · rcases past.cases_cons hw with ⟨hs, -⟩ | ⟨ws, -, hq, -⟩
    · cases hs
    · exact absurd hq id

/-! ### The loop without observers -/

/-- The second moment is the first one without all that observers have a part in. -/
structure Moment.Mirrors (q m : Moment) : Prop where
  state : q.state.own = m.state.own
  active : q.active = m.active.filter Thread.isOwn

/-- What can be seen of the loop when it does a piece of its work. -/
structure Sight where
  clock : Nat
  iterations : Nat
  currentStep : Option String
  job : Job

def Happening.sight? : Happening → Option Sight
  | .worked _ s t job =>
    if t.isOwn then some ⟨s.clock, s.iterations, s.currentStep, job⟩ else none
  | .asked _ | .shifted => none

/-- Whether only the loop does anything at the happening, in the world `w`. -/
def Happening.IsOwn (w : World) (e : Happening) : Prop :=
  (∀ i, e ≠ .asked i) ∧ ∀ w' s t job, e = .worked w' s t job → w' = w ∧ t.isOwn = true

theorem Thread.isOwn_resume (s : State) (t : Thread) : (t.resume s).isOwn = t.isOwn := by
  unfold resume
  split
  · split <;> rfl
  · rfl

theorem Thread.resume_of_own {q : State} (h : q.own = s.own) (t : Thread) :
    t.isReady q = t.isReady s ∧ t.resume q = t.resume s :=
  ⟨State.field_of_own t.isReady (fun _ => rfl) h,
    State.field_of_own (fun s => t.resume s) (fun _ => rfl) h⟩

theorem Happening.isOwn_shifted : Happening.IsOwn w .shifted := by simp [IsOwn]

theorem Happening.isOwn_worked (ht : t.isOwn = true) : Happening.IsOwn w (.worked w s t job) := by
  refine ⟨by simp, ?_⟩
  rintro _ _ _ _ ⟨⟩
  exact ⟨rfl, ht⟩

namespace Moment.Mirrors

variable {q : Moment}

/-- There is a course without observers that shows the same of the loop. -/
def Follows (setup : Setup) (w : World) (q m' : Moment) (sights : List Sight) : Prop :=
  ∃ hs q', Course setup q hs q' ∧ q'.Mirrors m' ∧ hs.filterMap Happening.sight? = sights ∧
    ∀ e ∈ hs, e.IsOwn w

/-- Where an observer has its turn, nothing happens without it. -/
theorem idle (h : q.Mirrors m) (hs : m'.state.own = m.state.own)
    (ha : m'.active.filter Thread.isOwn = m.active.filter Thread.isOwn) : Follows setup w q m' [] :=
  ⟨[], q, .refl, ⟨h.state.trans hs.symm, h.active.trans ha.symm⟩, rfl, by simp⟩

theorem single {e : Happening} (st : q.Step setup e m) (h : m.Mirrors m') (own : e.IsOwn w) :
    Follows setup w q m' e.sight?.toList :=
  ⟨[e], m, .single st, h, by cases he : e.sight? <;> simp [he], by simpa using own⟩

theorem turn {before after : List Thread} (h : q.Mirrors ⟨s, none⟩)
    (hs : s.threads = before ++ t :: after) (ready : t.isReady s = true) :
    Follows setup w q ⟨{ s with threads := before ++ after }, some (t.resume s)⟩ [] := by
  obtain ⟨qs, qa⟩ := q
  obtain ⟨own, ha⟩ := h
  obtain rfl : qa = none := ha
  have own : qs.own = s.own := own
  cases ht : t.isOwn with
  | false =>
    refine idle (m := ⟨s, none⟩) ⟨own, rfl⟩ ?_ ?_
    · simp [State.own, hs, ht]
    · simp [Thread.isOwn_resume, ht]
  | true =>
    have line : qs.threads.filter Thread.isOwn =
        before.filter Thread.isOwn ++ t :: after.filter Thread.isOwn := by
      have threads := congrArg State.threads own
      rw [State.own, State.own, hs] at threads
      simpa [ht] using threads
    obtain ⟨before', more, hq, hb, hm⟩ := List.filter_eq_append_iff.mp line
    obtain ⟨between, after', rfl, others, -, hafter⟩ := List.filter_eq_cons_iff.mp hm
    obtain ⟨same, resumes⟩ := Thread.resume_of_own own t
    have st : Step setup ⟨qs, none⟩ .shifted
        ⟨{ qs with threads := (before' ++ between) ++ after' }, some (t.resume qs)⟩ :=
      .turn (by rw [hq, List.append_assoc]) (same.trans ready)
    refine single st ⟨?_, ?_⟩ Happening.isOwn_shifted
    · have rest : (before' ++ between ++ after').filter Thread.isOwn =
          (before ++ after).filter Thread.isOwn := by
        have none : between.filter Thread.isOwn = [] := List.filter_eq_nil_iff.mpr others
        simp [hb, none, hafter]
      have left := qs.own_line (before' ++ between ++ after')
      rw [rest, own] at left
      exact left
    · simp [resumes, Option.filter_some, Thread.isOwn_resume, ht]

/-- The loop does the same work without observers. -/
theorem own_work (h : q.Mirrors ⟨s, some t⟩) (tame : t.IsTame) (ht : t.isOwn = true)
    (hw : t.work = job :: rest) (st : Step setup ⟨s, some t⟩ (.worked w s t job) m') :
    Follows setup w q m' [⟨s.clock, s.iterations, s.currentStep, job⟩] := by
  obtain ⟨qs, qa⟩ := q
  obtain ⟨own, ha⟩ := h
  have own : qs.own = s.own := own
  obtain rfl : qa = some t := by simpa [Option.filter_some, ht] using ha
  have hj : job.IsTame true := ht ▸ tame.head hw
  obtain ⟨after, next, pause⟩ := Job.own_run own hj setup w
  have clock : qs.clock = s.clock := State.field_of_own State.clock (fun _ => rfl) own
  have iterations : qs.iterations = s.iterations :=
    State.field_of_own State.iterations (fun _ => rfl) own
  have currentStep : qs.currentStep = s.currentStep :=
    State.field_of_own State.currentStep (fun _ => rfl) own
  have sight : (Happening.worked w qs t job).sight?.toList =
      [⟨s.clock, s.iterations, s.currentStep, job⟩] := by
    simp [Happening.sight?, ht, clock, iterations, currentStep]
  have advance : t.advance (job.run setup w qs) rest = t.advance (job.run setup w s) rest := by
    rw [Thread.advance, next, Thread.advance]
  rw [← sight]
  have isOwn : (t.advance (job.run setup w s) rest).isOwn = true := ht
  cases st with
  | work _ hw' hp =>
    cases hw.symm.trans hw'
    have st : Step setup ⟨qs, some t⟩ (.worked w qs t job) _ := .work w hw (pause.trans hp)
    refine single st ⟨after, ?_⟩ (Happening.isOwn_worked ht)
    simp [advance, Option.filter_some, isOwn]
  | wait _ hw' hp =>
    cases hw.symm.trans hw'
    have st : Step setup ⟨qs, some t⟩ (.worked w qs t job) _ := .wait w hw (pause.trans hp)
    rw [advance, clock] at st
    exact single st ⟨State.enqueue_of_own after _, rfl⟩ (Happening.isOwn_worked ht)
  | await _ due hw' hq =>
    cases hw.symm.trans hw'
    have st : Step setup ⟨qs, some t⟩ (.worked w qs t job) _ := .await w due hw hq
    rw [advance] at st
    exact single st ⟨State.enqueue_of_own after _, rfl⟩ (Happening.isOwn_worked ht)

/-- What an observer does, the loop has no part in. -/
theorem other_work (h : q.Mirrors ⟨s, some t⟩) (tame : t.IsTame) (sound : Sound ⟨s, some t⟩)
    (ht : t.isOwn = false) (st : Step setup ⟨s, some t⟩ (.worked w s t job) m') :
    Follows setup w q m' [] := by
  obtain ⟨-, rest, hw⟩ := st.worked
  have hj : job.IsTame false := ht ▸ tame.head hw
  have polled (r : Run) (o : Observer) (he : job = .enlistOpen r o) : s.isPolling = true := by
    subst he
    exact sound.polls hw ht
  have same : (job.run setup w s).state.own = s.own := Job.own_run_other hj setup w s polled
  have isOwn (rest : Work) (due : Nat) :
      Thread.isOwn { t.advance (job.run setup w s) rest with due } = false := ht
  cases st with
  | work _ hw hp =>
    have unchanged (rest : Work) : (t.advance (job.run setup w s) rest).isOwn = false := ht
    exact h.idle same (by simp [Option.filter_some, ht, unchanged])
  | wait _ hw hp =>
    exact h.idle ((State.own_enqueue_other _ (isOwn _ _)).trans same) (by simp [Option.filter_some, ht])
  | await _ due hw ha =>
    exact h.idle ((State.own_enqueue_other _ (isOwn _ _)).trans same) (by simp [Option.filter_some, ht])

/-- Whatever happens at a moment, the loop does the same without observers. -/
theorem step (h : q.Mirrors m) (tame : m.IsTame) (sound : m.Sound) (st : m.Step setup e m')
    (unasked : ∀ i, e ≠ .asked i) (steady : e.IsIn w) : Follows setup w q m' e.sight?.toList := by
  cases e with
  | asked i => exact absurd rfl (unasked i)
  | worked w' s t job =>
    obtain rfl : w' = w := steady w' s t job rfl
    obtain ⟨rfl, rest, hw⟩ := st.worked
    cases ht : t.isOwn with
    | true => simpa [Happening.sight?, ht] using h.own_work (tame.active t rfl) ht hw st
    | false => simpa [Happening.sight?, ht] using h.other_work (tame.active t rfl) sound ht st
  | shifted =>
    obtain ⟨qs, qa⟩ := q
    cases st with
    | pass s ms =>
      obtain ⟨own, ha⟩ := h
      obtain rfl : qa = none := ha
      refine single (.pass qs ms) ⟨?_, rfl⟩ Happening.isOwn_shifted
      exact State.change_of_own (fun u => { u with clock := u.clock + ms }) (fun _ => rfl) own
    | turn hs ready => exact h.turn hs ready
    | @leave s t hw =>
      cases ht : t.isOwn with
      | true =>
        obtain ⟨own, ha⟩ := h
        obtain rfl : qa = some t := by simpa [Option.filter_some, ht] using ha
        exact single (.leave hw) ⟨own, rfl⟩ Happening.isOwn_shifted
      | false => exact h.idle rfl (by simp [Option.filter_some, ht])

end Moment.Mirrors

theorem Course.isTame (c : Course setup m hs m') (tame : m.IsTame)
    (unasked : ∀ e ∈ hs, ∀ i, e ≠ .asked i) : m'.IsTame := by
  induction c with
  | refl => exact tame
  | snoc c st ih =>
    exact (ih fun e he => unasked e (List.mem_append_left _ he)).step st (unasked _ (by simp))

/-- In every course in which nothing is asked from outside the loop does what it does without observers. -/
theorem Course.mirrors (c : Course setup m hs m') (tame : m.IsTame) (sound : m.Sound)
    (h : m.Mirrors m) (unasked : ∀ e ∈ hs, ∀ i, e ≠ .asked i) (steady : ∀ e ∈ hs, e.IsIn w) :
    Moment.Mirrors.Follows setup w m m' (hs.filterMap Happening.sight?) := by
  induction c with
  | refl => exact ⟨[], m, .refl, h, rfl, by simp⟩
  | @snoc m₁ m₂ hs e c st ih =>
    have before : ∀ e ∈ hs, ∀ i, e ≠ .asked i := fun e he => unasked e (List.mem_append_left _ he)
    obtain ⟨hs', q, c', mirrors, sights, own⟩ :=
      ih before fun e he => steady e (List.mem_append_left _ he)
    obtain ⟨hs'', q', c'', mirrors', sights', own'⟩ := mirrors.step (c.isTame tame before)
      (c.sound sound) st (unasked e (by simp)) (steady e (by simp))
    refine ⟨_, q', c'.append c'', mirrors', ?_, List.forall_mem_append.mpr ⟨own, own'⟩⟩
    rw [List.filterMap_append, List.filterMap_append, sights, sights']
    cases he : e.sight? <;> simp [he]

/-! ### What the loop shows -/

/-- What the loop shows of the script. -/
def Happening.ownMark? : Happening → Option Mark
  | .worked w _ t job => if t.isOwn then job.mark w else none
  | .asked _ | .shifted => none

/-- What the loop shows can be seen. -/
theorem Happening.ownMark?_eq {e : Happening} (steady : e.IsIn w) :
    e.ownMark? = e.sight?.bind fun x => x.job.mark w := by
  cases e with
  | worked w' s t job =>
    obtain rfl : w' = w := steady w' s t job rfl
    simp only [ownMark?, sight?]
    split <;> rfl
  | asked | shifted => rfl

theorem Happening.ownMarks_eq (steady : ∀ e ∈ hs, e.IsIn w) :
    hs.filterMap ownMark? = (hs.filterMap sight?).filterMap fun x => x.job.mark w := by
  rw [List.filterMap_filterMap]
  exact List.filterMap_congr fun e he => ownMark?_eq (steady e he)

/-- The step that the work enters on behalf of the script's own loop. -/
def Job.entered? : Job → Option Step
  | .enter lane step => if lane.foreground then some step else none
  | _ => none

theorem Job.currentStep_run (setup : Setup) (w : World) (s : State) (job : Job) :
    (job.run setup w s).state.currentStep =
      (job.entered?.map Step.id).or s.currentStep := by
  cases job with
  | level lane steps =>
    cases steps with
    | nil => rfl
    | cons step steps =>
      simp only [run, guarded]
      split <;> rfl
  | decide lane q thens elses | aim step action since q | probe q => cases q <;> rfl
  | act step action since place =>
    simp only [run, perform]
    cases action.deed place <;> rfl
  | enter lane step =>
    simp only [run, enterStep, entered?]
    split <;> rfl
  | enlistOpen r o =>
    simp only [run, State.enlist, State.startPolling]
    split
    · rfl
    · split <;> rfl
  | settle r =>
    simp only [run, State.settle]
    split
    · split <;> rfl
    · rfl
  | iterate | iterateOpen | endIteration | levelOpen | enlist | halt | clear | watch | takeIn
  | relax =>
    simp only [run, guarded, unlessPaused, State.halt, State.clear]
    split <;> rfl
  | _ => rfl

/-- Tame work shows that a step is entered where it moves the current step, if it is that of a loop. -/
theorem Job.IsTame.entered {own : Bool} (h : job.IsTame own) (w : World) :
    job.entered? = (if own then job.mark w else none).bind Mark.entered? := by
  cases job with
  | enter lane step =>
    rw [← h.1]
    cases hf : lane.foreground <;> simp [entered?, mark, hf, Mark.entered?]
  | decide lane q thens elses | aim step action since q | probe q =>
    cases q <;> cases own <;> rfl
  | act step action since place =>
    simp only [entered?, mark]
    cases own with
    | false => rfl
    | true => cases action.deed place <;> rfl
  | tell e => cases e <;> cases own <;> rfl
  | _ => cases own <;> rfl

theorem Moment.Step.currentStep (st : m.Step setup e m') (tame : m.IsTame)
    (unasked : ∀ i, e ≠ .asked i) : m'.state.currentStep =
      ((e.ownMark?.bind Mark.entered?).map Step.id).or m.state.currentStep := by
  cases e with
  | asked i => exact absurd rfl (unasked i)
  | worked w s t job =>
    obtain ⟨rest, hw, rfl, ⟨threads, hs⟩, -⟩ := st.after
    have entered := ((tame.active t rfl).head hw).entered w
    rw [hs]
    refine (job.currentStep_run setup w s).trans ?_
    rw [entered]
    rfl
  | shifted => cases st <;> rfl

/-- The current step is the one that the loop entered last. -/
theorem Course.currentStep_eq (c : Course setup m hs m') (tame : m.IsTame)
    (unasked : ∀ e ∈ hs, ∀ i, e ≠ .asked i) :
    m'.state.currentStep = (((hs.filterMap Happening.ownMark?).filterMap Mark.entered?).getLast?.map
      Step.id).or m.state.currentStep := by
  induction c with
  | refl => simp
  | @snoc m₁ m₂ hs e c st ih =>
    have before : ∀ e ∈ hs, ∀ i, e ≠ .asked i := fun e he => unasked e (List.mem_append_left _ he)
    rw [st.currentStep (c.isTame tame before) (unasked e (by simp)), ih before,
      List.filterMap_append, List.filterMap_append, List.getLast?_append]
    cases hm : e.ownMark? with
    | none => simp [hm]
    | some mark => cases he : mark.entered? <;> simp [hm, he]

/-- Steps are entered on behalf of the loop by the loop alone. -/
theorem Course.lanes (c : Course setup m hs m') (tame : m.IsTame)
    (unasked : ∀ e ∈ hs, ∀ i, e ≠ .asked i) {w : World} {s : State} {t : Thread} {lane : Lane}
    {step : Step} (he : .worked w s t (.enter lane step) ∈ hs) : lane.foreground = t.isOwn := by
  obtain ⟨before, after, rfl⟩ := List.append_of_mem he
  obtain ⟨m₁, m₂, c₁, st, -⟩ := c.cut rfl
  obtain ⟨rfl, rest, hw⟩ := st.worked
  have tame₁ := c₁.isTame tame fun e he => unasked e (List.mem_append_left _ he)
  exact ((tame₁.active t rfl).head hw).1

/-! ### A run begins without observers -/

namespace State

/-- There are observers only while they are polled. -/
def IsPolled (s : State) : Prop := s.polling = none → s.registry.entries = []

theorem isPolled_clear (s : State) : s.clear.IsPolled := by
  intro _
  rw [clear_registry]
  rfl

theorem IsPolled.congr {s' : State} (h : s.IsPolled) (polling : s'.polling = s.polling)
    (registry : s'.registry = s.registry) : s'.IsPolled := by
  intro none
  rw [registry]
  exact h (polling.symm.trans none)

theorem isPolled_enlist (threaded : setup.hasRuntime = true) (s : State) (o : Observer)
    (priority : Int32) : (s.enlist setup o priority).IsPolled := by
  intro none
  by_cases hp : s.isPolling = true
  · have same : (s.enlist setup o priority).polling = s.polling := by
      show State.polling (if s.isPolling then _ else _) = s.polling
      rw [if_pos hp]
    simp [isPolling, same.symm.trans none] at hp
  · have begun : (s.enlist setup o priority).polling = some s.issued := by
      show State.polling (if s.isPolling then _ else _) = some s.issued
      rw [if_neg hp, startPolling, if_pos threaded]
    cases begun.symm.trans none

theorem IsPolled.run (h : s.IsPolled) (threaded : setup.hasRuntime = true) (w : World) (job : Job) :
    (job.run setup w s).state.IsPolled := by
  by_cases hd : job.isDecisive = true
  · cases job with
    | halt =>
      refine h.congr ?_ ?_ <;>
      · simp only [Job.run, halt]
        split <;> rfl
    | clear => exact s.isPolled_clear
    | settle r =>
      simp only [Job.run, settle]
      split
      · split
        · exact h.congr rfl rfl
        · exact h
      · exact h
    | enlistOpen r o => exact isPolled_enlist threaded s o _
    | _ => cases hd
  · obtain ⟨step, n, hs⟩ := job.kept_run setup w s (by simpa using hd)
    rw [hs]
    exact h.congr rfl rfl

theorem IsPolled.take (h : s.IsPolled) (i : Intervention) : (i.take setup s).2.IsPolled := by
  have change (before after : Phase) (e : Event) : (s.change before after e).2.IsPolled := by
    unfold State.change State.transition
    by_cases hp : s.phase = before
    · rw [if_pos hp]
      exact h.congr rfl rfl
    · rw [if_neg hp]
      exact h
  cases i with
  | start script =>
    simp only [Intervention.take, start, openRun]
    split
    · by_cases hp : s.phase = .idle
      · rw [if_pos hp]
        exact h.congr rfl rfl
      · rw [if_neg hp]
        exact h
    · exact h
  | pause => exact change _ _ _
  | resume => exact change _ _ _
  | stop =>
    simp only [Intervention.take, stop]
    split
    · exact (isPolled_clear _).congr rfl rfl
    · exact isPolled_clear _

end State

theorem Course.isPolled (c : Course setup .fresh hs m) (threaded : setup.hasRuntime = true) :
    m.state.IsPolled := by
  refine c.keeps (P := fun m => m.state.IsPolled) (fun m e m' h st => ?_) fun _ => rfl
  cases e with
  | worked w s t job =>
    obtain ⟨rest, -, rfl, ⟨threads, hs⟩, -⟩ := st.after
    rw [hs]
    exact (State.IsPolled.run h threaded w job).congr rfl rfl
  | asked i =>
    cases st with
    | ask s i => exact State.IsPolled.take h i
  | shifted => cases st <;> exact h.congr rfl rfl

/-- Where there is no run there are no observers. -/
theorem Course.unobserved (c : Course setup .fresh hs m) (threaded : setup.hasRuntime = true)
    (none : m.state.run = none) : m.state.registry.entries = [] := by
  refine c.isPolled threaded ?_
  cases hp : m.state.polling with
  | none => rfl
  | some p =>
    obtain ⟨-, r, hr, -⟩ := (c.sound Moment.sound_fresh).watched p hp
    cases none.symm.trans hr

/-- The loop of a run that was just opened. -/
def Run.loop (r : Run) (due : Nat) : Thread :=
  ⟨.foreground, some r.token, .iterate r :: State.closing r, State.closing r, due⟩

/-- A run that is started begins with its loop and nothing else that is new. -/
theorem State.start_opens {script : Script} (h : (s.start setup script).1 = true) :
    setup.hasRuntime = true ∧ s.phase = .idle ∧
      (s.start setup script).2.registry = s.registry ∧
      (s.start setup script).2.cancelled = s.cancelled ∧
      (s.start setup script).2.currentStep = none ∧
      (s.start setup script).2.threads =
        s.threads ++ [Run.loop ⟨s.issued, script.withDefaults⟩ s.clock] := by
  unfold start at h ⊢
  split at h
  · rename_i threaded
    rw [if_pos threaded]
    unfold openRun at h ⊢
    by_cases idle : s.phase = .idle
    · rw [if_pos idle]
      exact ⟨threaded, idle, rfl, rfl, rfl, rfl⟩
    · rw [if_neg idle] at h
      cases h
  · cases h

/-- When a run begins everything is tame, if no observer in the script stops a run. -/
theorem Course.isTame_start {script : Script} (c : Course setup .fresh hs ⟨s, none⟩)
    (started : (s.start setup script).1 = true)
    (spares : Forest.spares true script.withDefaults.steps = true) :
    Moment.IsTame ⟨(s.start setup script).2, none⟩ := by
  have sound := c.sound Moment.sound_fresh
  obtain ⟨threaded, idle, registry, cancelled, -, threads⟩ := State.start_opens started
  have unrun : s.run = none := sound.orderly.idle_iff.mp idle
  refine ⟨fun e he => ?_, fun t ht => ?_, by simp⟩
  · have empty : s.registry.entries = [] := c.unobserved threaded unrun
    simp only [registry, empty] at he
    cases he
  · simp only [threads] at ht
    rcases List.mem_append.mp ht with ht | ht
    · -- What is left of earlier runs is to be dropped.
      obtain ⟨role, dropped⟩ := sound.dropped unrun ht
      obtain ⟨r, closes, -⟩ := (sound.fits t ht).closes
      refine ⟨fun goes => ?_, ?_⟩
      · obtain ⟨k, hk⟩ := Option.ne_none_iff_exists'.mp (sound.fits t ht).token
        rw [hk] at goes
        have live : s.isCancelled k = false := (State.isCancelled_congr cancelled k).symm.trans goes
        cases (dropped k hk).symm.trans live
      · cases closes with
        | loop hf => exact absurd hf role
        | watcher _ hc => simp [hc]
    · rw [List.mem_singleton.mp ht]
      have tame : (Run.loop ⟨s.issued, script.withDefaults⟩ s.clock).IsTame := by
        simp [Thread.IsTame, Run.loop, Thread.isOwn, State.closing, Job.IsTame, spares]
      exact ⟨fun _ => tame, tame.closing⟩

/-! ### The observers of a script -/

mutual

theorem Step.spares_of {allowed : Bool} (s : Step)
    (own : allowed = false → ∀ x ∈ s :: s.within, x.isStop = false)
    (observers : ∀ h c steps, .observer h c steps ∈ s :: s.within →
      ∀ x ∈ Forest.everyStep steps, x.isStop = false) : s.spares allowed = true := by
  cases s with
  | action h a =>
    rw [Step.spares]
    cases allowed with
    | true => rfl
    | false => simpa [Step.isStop] using own rfl (.action h a) (by simp)
  | conditional h c thens elses =>
    rw [Step.spares, Bool.and_eq_true]
    have thens' : Forest.everyStep thens ⊆ Step.within (.conditional h c thens elses) :=
      List.subset_append_left _ _
    have elses' : Forest.everyStep elses ⊆ Step.within (.conditional h c thens elses) :=
      List.subset_append_right _ _
    exact ⟨Forest.spares_of thens (fun ha x hx => own ha x (.tail _ (thens' hx)))
        fun h c steps ho => observers h c steps (.tail _ (thens' ho)),
      Forest.spares_of elses (fun ha x hx => own ha x (.tail _ (elses' hx)))
        fun h c steps ho => observers h c steps (.tail _ (elses' ho))⟩
  | observer h c steps =>
    exact Forest.spares_of steps (fun _ => observers h c steps (by simp))
      fun h' c' steps' ho => observers h' c' steps' (.tail _ ho)
  | group h name steps =>
    exact Forest.spares_of steps (fun ha x hx => own ha x (.tail _ hx))
      fun h c steps' ho => observers h c steps' (.tail _ ho)

theorem Forest.spares_of {allowed : Bool} (steps : List Step)
    (own : allowed = false → ∀ x ∈ Forest.everyStep steps, x.isStop = false)
    (observers : ∀ h c inner, .observer h c inner ∈ Forest.everyStep steps →
      ∀ x ∈ Forest.everyStep inner, x.isStop = false) : Forest.spares allowed steps = true := by
  cases steps with
  | nil => rfl
  | cons s steps =>
    rw [Forest.spares, Bool.and_eq_true]
    have first : s :: s.within ⊆ Forest.everyStep (s :: steps) := by
      rw [Forest.everyStep, ← List.cons_append]
      exact List.subset_append_left _ _
    have others : Forest.everyStep steps ⊆ Forest.everyStep (s :: steps) := by
      rw [Forest.everyStep, ← List.cons_append]
      exact List.subset_append_right _ _
    exact ⟨Step.spares_of s (fun ha x hx => own ha x (first hx))
        fun h c inner ho => observers h c inner (first ho),
      Forest.spares_of steps (fun ha x hx => own ha x (others hx))
        fun h c inner ho => observers h c inner (others ho)⟩

end

mutual

/-- The settings of a script do not make it stop. -/
theorem Step.spares_image (settings : Settings) (allowed : Bool) (s : Step) :
    (s.image (.withDefaults settings)).spares allowed = s.spares allowed := by
  cases s with
  | action h a =>
    have same : (a.map (.withThreshold settings.threshold)).isStop = a.isStop := by
      cases a with
      | mouse m => cases m <;> rfl
      | _ => rfl
    exact congrArg (fun b => allowed || !b) same
  | conditional h c thens elses =>
    exact congrArg₂ (· && ·) (Forest.spares_images settings allowed thens)
      (Forest.spares_images settings allowed elses)
  | observer h c steps => exact Forest.spares_images settings false steps
  | group h name steps => exact Forest.spares_images settings allowed steps

theorem Forest.spares_images (settings : Settings) (allowed : Bool) (steps : List Step) :
    Forest.spares allowed (Forest.images (.withDefaults settings) steps) =
      Forest.spares allowed steps := by
  cases steps with
  | nil => rfl
  | cons s steps =>
    exact congrArg₂ (· && ·) (Step.spares_image settings allowed s)
      (Forest.spares_images settings allowed steps)

end

/-- A run may stop itself, but none of its observers stops it where the script has no such step in an
observer. -/
theorem Script.spares_withDefaults {script : Script}
    (unstopping : ∀ h c steps, .observer h c steps ∈ Forest.everyStep script.steps →
      ∀ step ∈ Forest.everyStep steps, step.isStop = false) :
    Forest.spares true script.withDefaults.steps = true := by
  rw [withDefaults, Forest.map_eq, ← Forest.images_eq_map, Forest.spares_images]
  exact Forest.spares_of script.steps (by simp) unstopping

/-- Observers do not disturb the loop of a run. If no observer of the script stops the run, then in every
course of the run on a screen that stays as it is, in which nothing is asked from outside, the loop does
what it does in a course in which no observer is ever looked at: the same pieces of work at the same
times, with the same current step and the same number of iterations before each of them, so that it
enters the same steps, looks for the same elements and makes the same requests. Its current step is
always the one that it entered last, and nobody but the loop enters steps on its behalf. -/
theorem Course.undisturbed_by_observers {hs₀ : List Happening} {script : Script}
    (c₀ : Course setup .fresh hs₀ ⟨s, none⟩) (started : (s.start setup script).1 = true)
    (unstopping : ∀ h c steps, .observer h c steps ∈ Forest.everyStep script.steps →
      ∀ step ∈ Forest.everyStep steps, step.isStop = false)
    (c : Course setup ⟨(s.start setup script).2, none⟩ hs m)
    (unasked : ∀ e ∈ hs, ∀ i, e ≠ .asked i) (steady : ∀ e ∈ hs, e.IsIn w) :
    (∃ hs' m', Course setup ⟨(s.start setup script).2, none⟩ hs' m' ∧ (∀ e ∈ hs', e.IsOwn w) ∧
      hs'.filterMap Happening.sight? = hs.filterMap Happening.sight? ∧
      hs'.filterMap Happening.ownMark? = hs.filterMap Happening.ownMark? ∧
      m'.state.clock = m.state.clock ∧ m'.state.phase = m.state.phase ∧
      m'.state.iterations = m.state.iterations ∧ m'.state.currentStep = m.state.currentStep) ∧
    m.state.currentStep =
      ((hs.filterMap Happening.ownMark?).filterMap Mark.entered?).getLast?.map Step.id ∧
    ∀ w s t lane step, .worked w s t (.enter lane step) ∈ hs → lane.foreground = t.isOwn := by
  have sound₀ : Moment.Sound ⟨(s.start setup script).2, none⟩ :=
    (c₀.sound Moment.sound_fresh).start script
  have tame := c₀.isTame_start started (Script.spares_withDefaults unstopping)
  obtain ⟨-, -, -, -, fresh, -⟩ := State.start_opens started
  obtain ⟨hs', m', c', mirrors, sights, own⟩ := c.mirrors tame sound₀ ⟨rfl, rfl⟩ unasked steady
  refine ⟨⟨hs', m', c', own, sights, ?_, ?_, ?_, ?_, ?_⟩, ?_, ?_⟩
  · have steady' : ∀ e ∈ hs', e.IsIn w := fun e he w' s t job hj => ((own e he).2 w' s t job hj).1
    rw [Happening.ownMarks_eq steady', Happening.ownMarks_eq steady, sights]
  · exact State.field_of_own State.clock (fun _ => rfl) mirrors.state
  · exact State.field_of_own State.phase (fun _ => rfl) mirrors.state
  · exact State.field_of_own State.iterations (fun _ => rfl) mirrors.state
  · exact State.field_of_own State.currentStep (fun _ => rfl) mirrors.state
  · have last := c.currentStep_eq tame unasked
    rwa [fresh, Option.or_none] at last
  · exact fun w s t lane step he => c.lanes tame unasked he

/-- An observer that has seen something enters a group and a step inside it while the loop waits. -/
theorem undisturbed_seen :
    ∃ w script hs m, (({} : State).start ⟨{}, 500, true⟩ script).1 = true ∧
      (∀ h c steps, .observer h c steps ∈ Forest.everyStep script.steps →
        ∀ step ∈ Forest.everyStep steps, step.isStop = false) ∧
      Course ⟨{}, 500, true⟩ ⟨(({} : State).start ⟨{}, 500, true⟩ script).2, none⟩ hs m ∧
      (∀ e ∈ hs, ∀ i, e ≠ .asked i) ∧ (∀ e ∈ hs, e.IsIn w) ∧
      ((hs.filterMap Happening.mark?).filterMap Mark.entered?).map Step.id =
        ["watch", "wait", "seen", "note"] ∧
      ((hs.filterMap Happening.ownMark?).filterMap Mark.entered?).map Step.id = ["watch", "wait"] ∧
      m.state.currentStep = some "wait" ∧
      ∃ hs' m', Course ⟨{}, 500, true⟩ ⟨(({} : State).start ⟨{}, 500, true⟩ script).2, none⟩ hs' m' ∧
        (∀ e ∈ hs', e.IsOwn w) ∧
        hs'.filterMap Happening.ownMark? = hs.filterMap Happening.ownMark? ∧
        m'.state.currentStep = m.state.currentStep := by
  let header (id : String) : Header := ⟨id, none, none, none⟩
  let note : Step := .action (header "note") (.flow .proceed)
  let script : Script := { (default : Script) with
    name := "watched"
    steps := [
      .observer (header "watch") (.present (.position ⟨0, 0⟩)) [.group (header "seen") "seen" [note]],
      .action (header "wait") (.system (.wait 1000))] }
  let w : World := ⟨fun _ => .ok (some ⟨0, 0⟩), fun _ => .ok (), fun _ _ => .ok (), fun _ => .ok ()⟩
  let m₀ : Moment := ⟨(({} : State).start ⟨{}, 500, true⟩ script).2, none⟩
  have started : (({} : State).start ⟨{}, 500, true⟩ script).1 = true := rfl
  have unstopping : ∀ h c steps, .observer h c steps ∈ Forest.everyStep script.steps →
      ∀ step ∈ Forest.everyStep steps, step.isStop = false := by
    intro h c steps ho
    obtain ⟨rfl, rfl, rfl⟩ : h = header "watch" ∧ c = .present (.position ⟨0, 0⟩) ∧
        steps = [.group (header "seen") "seen" [note]] := by
      simpa [script, note, Forest.everyStep, Step.within] using ho
    simp [note, Forest.everyStep, Step.within, Step.isStop, Action.isStop]
  let ids (marks : List Mark) : List String := (marks.filterMap Mark.entered?).map Step.id
  obtain ⟨hs, m, c, steady, found⟩ := @Moment.exists_course ⟨{}, 500, true⟩ m₀ w
    (.turn 0 :: List.replicate 18 .go ++ .turn 0 :: List.replicate 14 .go)
    (fun hs m => hs.all (!·.isAsked) &&
      ids (hs.filterMap Happening.mark?) == ["watch", "wait", "seen", "note"] &&
      ids (hs.filterMap Happening.ownMark?) == ["watch", "wait"] &&
      m.state.currentStep == some "wait")
    (by decide +kernel)
  simp only [Bool.and_eq_true, List.all_eq_true, beq_iff_eq] at found
  obtain ⟨⟨⟨free, all⟩, own⟩, current⟩ := found
  have unasked : ∀ e ∈ hs, ∀ i, e ≠ .asked i := by
    rintro e he i rfl
    cases free _ he
  obtain ⟨⟨hs', m', c', quiet, -, marks, -, -, -, same⟩, -⟩ :=
    Course.refl.undisturbed_by_observers started unstopping c unasked steady
  exact ⟨w, script, hs, m, started, unstopping, c, unasked, steady, all, own, current, hs', m', c',
    quiet, marks, same⟩

end DeskScript
