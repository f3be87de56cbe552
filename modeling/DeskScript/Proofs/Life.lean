import DeskScript.Proofs.Order

/-! The life of runs: how the phase, the current run and its token hang together, whatever is asked
of the engine and in whatever order. -/

namespace DeskScript

/-- Whether the thread is the loop of the run. -/
def Thread.isLoopOf (r : Run) (t : Thread) : Bool :=
  t.role == .foreground && t.token == some r.token

/-- The loop of the run ends: its thread is gone, and its closing work is done. -/
def State.windUp (s : State) (r : Run) : State :=
  { s with threads := s.threads.filter fun t => !t.isLoopOf r }.clear.settle r

/-- The run that is there in `s'` and was not in `s`. -/
def State.opened (s s' : State) : List Run :=
  match s.run with
  | none => s'.run.toList
  | some _ => []

/-- What can become of a fresh engine. Interventions come in any order, with their answers; a run
whose token is cancelled may wind up at any time; and in between the lanes may do any work that
spares the runs. A lane that stops the run does what the intervention does. `runs` are all runs that
were opened, in order. -/
inductive Life (setup : Setup) : List (Intervention × Option Bool) → List Run → State → Prop
  | fresh : Life setup [] [] {}
  | intervene {log runs s} (i : Intervention) : Life setup log runs s →
      Life setup (log ++ [(i, (i.take setup s).1)]) (runs ++ s.opened (i.take setup s).2)
        (i.take setup s).2
  | windUp {log runs s} (r : Run) : Life setup log runs s → s.isCancelled r.token = true →
      Life setup log runs (s.windUp r)
  | work {log runs s} (w : World) (job : Job) : Life setup log runs s → job.sparesRuns = true →
      Life setup log runs (job.run setup w s).state

/-- A lane that stops the run does, piece by piece, what the intervention does. -/
theorem State.stop_eq_work (setup : Setup) (w : World) (s : State) :
    (Job.halt.run setup w s).next.foldl (fun s job => (job.run setup w s).state)
      (Job.halt.run setup w s).state = s.stop := by
  unfold stop
  simp only [Job.run]
  cases s.halt.1 <;> rfl

/-- The loop of a cancelled run, when it next has its turn, winds the run up. -/
theorem State.windUp_eq_goOn {setup : Setup} {w : World} {s : State} {r : Run} {t : Thread}
    (hl : t.isLoopOf r = true) (hw : t.closing = closing r) (hc : s.isCancelled r.token = true) :
    goOn setup w (t.resume s) { s with threads := s.threads.filter fun t => !t.isLoopOf r } =
      s.windUp r := by
  have ht : t.token = some r.token := by simp_all [Thread.isLoopOf]
  have hr : t.resume s = { t with work := [.clear, .settle r], token := none } := by
    simp [Thread.resume, ht, hc, hw, closing]
  simp [hr, goOn, Job.run, Thread.advance, windUp]

/-- The names of the scripts whose start was granted. -/
def granted (log : List (Intervention × Option Bool)) : List String :=
  log.filterMap fun
    | (.start script, some true) => some script.name
    | _ => none

namespace State

/-- The current run, if it has not been stopped. -/
def going (s : State) : List Run := s.run.toList.filter fun r => !s.isCancelled r.token

/-- What the tables and notes of the engine say of the runs that were opened. -/
structure Accounts (log : List (Intervention × Option Bool)) (runs : List Run) (s : State) :
    Prop where
  orderly : s.Orderly
  /-- Only the current run has a loop. -/
  loops : ∀ t ∈ s.threads, t.role = .foreground → ∃ r, s.run = some r ∧ t.token = some r.token
  single : s.threads.countP (·.role = .foreground) ≤ 1
  granted : granted log = runs.map fun r => r.script.name
  started : s.events.filterMap Event.started? = runs.map fun r => r.script.name
  /-- All runs but the current one were stopped. -/
  ended : (runs.filter fun r => !s.isCancelled r.token) = s.going
  stopped : s.events.count .scriptStopped + s.going.length = runs.length

theorem accounts_fresh : Accounts [] [] {} where
  orderly := orderly_fresh
  loops := by simp
  single := by simp
  granted := rfl
  started := rfl
  ended := rfl
  stopped := rfl

theorem going_congr {s s' : State} (run : s'.run = s.run) (cancelled : s'.cancelled = s.cancelled) :
    s'.going = s.going := by
  simp only [going, run, isCancelled_congr cancelled]

/-- Cancelling a token takes away the run that has it, in any list of runs. -/
theorem filter_cancel (s : State) (t : Token) (runs : List Run) :
    (runs.filter fun r => !(s.cancel t).isCancelled r.token) =
      (runs.filter fun r => !s.isCancelled r.token).filter (·.token ≠ t) := by
  rw [List.filter_filter]
  apply List.filter_congr
  intro r _
  simp

variable {log : List (Intervention × Option Bool)} {runs : List Run} {s s' : State}

/-- The accounts are kept where runs and loops stay and nothing is told of runs. -/
theorem Accounts.congr (h : Accounts log runs s) (orderly : s'.Orderly) (run : s'.run = s.run)
    (cancelled : s'.cancelled = s.cancelled)
    (loops : s'.threads.filter (·.role = .foreground) = s.threads.filter (·.role = .foreground))
    {new : List Event} (events : s'.events = s.events ++ new)
    (quiet : ∀ e ∈ new, e.isOfRun = false) : Accounts log runs s' := by
  have hg : s'.going = s.going := going_congr run cancelled
  have hs : new.filterMap Event.started? = [] := by
    rw [List.filterMap_eq_nil_iff]
    intro e he
    have := quiet e he
    cases e <;> first | rfl | cases this
  have hc : new.count .scriptStopped = 0 := by
    rw [List.count_eq_zero]
    intro he
    cases quiet _ he
  constructor
  · exact orderly
  · intro t ht hf
    have hm : t ∈ s'.threads.filter (·.role = .foreground) := List.mem_filter.mpr ⟨ht, by simpa using hf⟩
    rw [loops] at hm
    rw [run]
    exact h.loops t (List.mem_filter.mp hm).1 hf
  · rw [List.countP_eq_length_filter, loops, ← List.countP_eq_length_filter]
    exact h.single
  · exact h.granted
  · rw [events, List.filterMap_append, hs, List.append_nil]
    exact h.started
  · simp only [isCancelled_congr cancelled]
    rw [hg]
    exact h.ended
  · rw [events, List.count_append, hc, hg]
    exact h.stopped

theorem Accounts.clear (h : Accounts log runs s) : Accounts log runs s.clear := by
  cases hp : s.polling with
  | none =>
    have hs : s.clear = { s with registry := s.registry.clear, polling := none } := by
      simp [State.clear, hp]
    exact h.congr h.orderly.clear (by rw [hs]) (by rw [hs]) (by rw [hs])
      (show s.clear.events = s.events ++ [] by simp) (by simp)
  | some p =>
    have hs : s.clear = { s.cancel p with registry := s.registry.clear, polling := none } := by
      simp only [State.clear, hp]
      rfl
    have spared : s.going.filter (·.token ≠ p) = s.going := by
      rw [List.filter_eq_self]
      intro r hr
      have hr : s.run = some r := by simpa using (List.mem_filter.mp hr).1
      simpa using (h.orderly.polling_ne p r hp hr).symm
    have hg : s.clear.going = s.going := by
      rw [← spared, hs]
      exact s.filter_cancel p s.run.toList
    constructor
    · exact h.orderly.clear
    · rw [hs]
      exact h.loops
    · rw [hs]
      exact h.single
    · exact h.granted
    · rw [events_clear]
      exact h.started
    · rw [hg, ← spared, ← h.ended, hs]
      exact s.filter_cancel p runs
    · rw [events_clear, hg]
      exact h.stopped

theorem going_of_run {r : Run} (hr : s.run = some r) :
    s.going = if s.isCancelled r.token then [] else [r] := by
  simp only [going, hr, Option.toList_some, List.filter_cons, List.filter_nil, Bool.not_eq_true']
  cases s.isCancelled r.token <;> rfl

theorem going_of_none (hr : s.run = none) : s.going = [] := by
  simp [going, hr]

/-- A run that is stopped is told to be, once. -/
theorem Accounts.halt (h : Accounts log runs s) :
    Accounts log runs (if s.halt.1 then s.halt.2.tell .scriptStopped else s.halt.2) := by
  cases hr : s.run with
  | none =>
    have hs : s.halt = (false, { s with phase := .idle }) := by simp only [State.halt, hr]
    have kept : Accounts log runs s.halt.2 :=
      h.congr h.orderly.halt (by rw [hs]) (by rw [hs]) (by rw [hs])
        (show s.halt.2.events = s.events ++ [] by simp) (by simp)
    rw [hs] at kept ⊢
    exact kept
  | some r =>
    have hs : s.halt = (decide (s.phase ≠ .stopped), { s.cancel r.token with phase := .stopped }) := by
      simp only [State.halt, hr]
    have hp : s.halt.1 = !s.isCancelled r.token := by
      have hc := h.orderly.stopped_iff
      rw [hs]
      cases hc' : s.isCancelled r.token <;> simp [hc, hr, hc']
    have hg : s.halt.2.going = [] := by
      have hr' : s.halt.2.run = some r := by rw [hs]; exact hr
      have hc : s.halt.2.isCancelled r.token = true := by
        rw [hs]
        simp [isCancelled, State.cancel]
      rw [going_of_run hr', hc]
      rfl
    have ended : (runs.filter fun r => !s.halt.2.isCancelled r.token) = s.halt.2.going := by
      rw [hg, hs]
      refine (s.filter_cancel r.token runs).trans ?_
      rw [h.ended, going_of_run hr]
      split <;> simp
    have loops : ∀ t ∈ s.halt.2.threads, t.role = .foreground →
        ∃ r, s.halt.2.run = some r ∧ t.token = some r.token := by rw [hs]; exact h.loops
    have single : s.halt.2.threads.countP (·.role = .foreground) ≤ 1 := by rw [hs]; exact h.single
    have count := h.stopped
    rw [going_of_run hr] at count
    rw [hp]
    cases hc : s.isCancelled r.token with
    | true =>
      simp only [Bool.not_true, Bool.false_eq_true, if_false]
      refine ⟨h.orderly.halt, loops, single, h.granted, ?_, ended, ?_⟩
      · rw [events_halt]
        exact h.started
      · rw [events_halt, hg]
        simpa [hc] using count
    | false =>
      simp only [Bool.not_false, if_true]
      refine ⟨h.orderly.halt.kept (kept_note _ _), loops, single, h.granted, ?_, ended, ?_⟩
      · rw [events_tell, events_halt, List.filterMap_append, List.filterMap_cons_none rfl]
        simpa using h.started
      · have hg' : (s.halt.2.tell .scriptStopped).going = [] := hg
        rw [hg', events_tell, events_halt, List.count_append]
        simpa [hc] using count

theorem Accounts.stop (h : Accounts log runs s) : Accounts log runs s.stop := by
  have hs : s.stop = (if s.halt.1 then s.halt.2.tell .scriptStopped else s.halt.2).clear := by
    unfold State.stop
    dsimp only
    split
    · exact (clear_tell _ _).symm
    · rfl
  rw [hs]
  exact h.halt.clear

theorem Accounts.change (h : Accounts log runs s) {before after : Phase} {e : Event}
    (hb : before = .running ∨ before = .paused) (ha : after = .running ∨ after = .paused)
    (he : e.started? = none) (hs : e ≠ .scriptStopped) :
    Accounts log runs (s.change before after e).2 := by
  unfold State.change
  cases ht : s.transition before after with
  | none => exact h
  | some s' =>
    have hq : s' = { s with phase := after } := by
      unfold State.transition at ht
      split at ht <;> cases ht
      rfl
    have ho : s'.Orderly := h.orderly.transition ht hb ha
    subst hq
    refine ⟨ho.kept (kept_note _ _), h.loops, h.single, h.granted, ?_, h.ended, ?_⟩
    · rw [events_tell, List.filterMap_append, List.filterMap_cons_none he]
      simpa [events] using h.started
    · have hg : ({ s with phase := after }.tell e).going = s.going := rfl
      rw [events_tell, List.count_append, List.count_singleton, hg]
      simpa [hs, events] using h.stopped

theorem opened_of_run (h : s'.run = s.run) : s.opened s' = [] := by
  unfold opened
  rw [h]
  cases s.run <;> rfl

/-- An intervention that opens no run and is granted no start is entered in the log only. -/
theorem Accounts.logged (h : Accounts log runs s') (i : Intervention) (answer : Option Bool)
    (run : s'.run = s.run) (hi : DeskScript.granted [(i, answer)] = []) :
    Accounts (log ++ [(i, answer)]) (runs ++ s.opened s') s' := by
  rw [opened_of_run run, List.append_nil]
  refine { h with granted := ?_ }
  rw [← h.granted]
  simpa [DeskScript.granted] using hi

theorem openRun_eq_some {script : Script} {r : Run} (h : s.openRun script = some (r, s')) :
    s.phase = .idle ∧ r = ⟨s.issued, script⟩ ∧ s'.run = some r ∧ s'.threads = s.threads ∧
      s'.cancelled = s.cancelled ∧ s'.notes = s.notes := by
  unfold openRun at h
  split at h <;> cases h
  rename_i hp
  exact ⟨hp, rfl, rfl, rfl, rfl, rfl⟩

/-- Where there is no run, one is opened with its loop, and is told of. -/
theorem Accounts.launch (h : Accounts log runs s) (hr : s.run = none) {script : Script} {r : Run}
    (ho : s.openRun script.withDefaults = some (r, s')) :
    Accounts (log ++ [(.start script, some true)]) (runs ++ [r])
      ((s'.tell (.scriptStarted script.name)).launch r) := by
  obtain ⟨-, same, run, threads, cancelled, notes⟩ := openRun_eq_some ho
  have name : r.script.name = script.name := by rw [same]; rfl
  have fresh : s'.isCancelled r.token = false := by
    rw [isCancelled_congr cancelled, same]
    exact h.orderly.fresh
  have no_loop : ∀ t ∈ s'.threads, t.role ≠ .foreground := by
    intro t ht hf
    obtain ⟨r', hr', -⟩ := h.loops t (threads ▸ ht) hf
    cases hr.symm.trans hr'
  have ended := h.ended
  have count := h.stopped
  rw [going_of_none hr] at ended count
  have going : ((s'.tell (.scriptStarted script.name)).launch r).going = [r] :=
    (going_of_run run).trans (if_neg (by rw [Bool.not_eq_true]; exact fresh))
  have events : ((s'.tell (.scriptStarted script.name)).launch r).events =
      s.events ++ [.scriptStarted script.name] := by
    refine (events_tell s' _).trans ?_
    rw [events_congr notes]
  constructor
  · exact (h.orderly.openRun ho).congr rfl rfl rfl rfl rfl
  · intro t ht hf
    rcases List.mem_append.mp ht with ht | ht
    · exact absurd hf (no_loop t ht)
    · rw [List.mem_singleton.mp ht]
      exact ⟨r, run, rfl⟩
  · have none : s'.threads.countP (·.role = .foreground) = 0 := by simpa using no_loop
    simp [State.launch, spawn, tell, note, none]
  · simpa [DeskScript.granted, name] using h.granted
  · rw [events, List.filterMap_append, h.started]
    simp [Event.started?, name]
  · have kept : (runs.filter fun r => !s'.isCancelled r.token) = [] := by
      simp only [isCancelled_congr cancelled]
      exact ended
    rw [going, List.filter_append]
    refine (congrArg (· ++ _) kept).trans ?_
    simpa [isCancelled, State.launch, spawn, tell, note] using fresh
  · rw [events, going, List.count_append]
    simpa using count

theorem Accounts.start (h : Accounts log runs s) (setup : Setup) (script : Script) :
    Accounts (log ++ [(.start script, some (s.start setup script).1)])
      (runs ++ s.opened (s.start setup script).2) (s.start setup script).2 := by
  unfold State.start
  split
  · cases ho : s.openRun script.withDefaults with
    | none => exact h.logged _ _ rfl rfl
    | some opened =>
      obtain ⟨r, o⟩ := opened
      obtain ⟨hp, -, run, -⟩ := openRun_eq_some ho
      have hr : s.run = none := h.orderly.idle_iff.mp hp
      have hn : s.opened ((o.tell (.scriptStarted script.name)).launch r) = [r] := by
        simp [State.opened, hr, State.launch, spawn, tell, note, run]
      have launched := h.launch hr ho
      rw [← hn] at launched
      exact launched
  · exact h.logged _ _ rfl rfl

theorem Accounts.dropLoop (h : Accounts log runs s) (r : Run) :
    Accounts log runs { s with threads := s.threads.filter fun t => !t.isLoopOf r } where
  orderly := h.orderly.congr rfl rfl rfl rfl rfl
  loops t ht := h.loops t (List.mem_filter.mp ht).1
  single := Nat.le_trans (List.filter_sublist.countP_le) h.single
  granted := h.granted
  started := h.started
  ended := h.ended
  stopped := h.stopped

theorem Accounts.windUp (h : Accounts log runs s) {r : Run} (hc : s.isCancelled r.token = true) :
    Accounts log runs (s.windUp r) := by
  let q := { s with threads := s.threads.filter fun t => !t.isLoopOf r }.clear
  have hq : Accounts log runs q := (h.dropLoop r).clear
  have hqr : q.run = s.run := clear_run _
  have hqt : q.threads = s.threads.filter fun t => !t.isLoopOf r := clear_threads _
  change Accounts log runs (q.settle r)
  cases hr : s.run with
  | none =>
    have hs : q.settle r = q := by simp only [State.settle, hqr, hr]
    rwa [hs]
  | some current =>
    by_cases he : current.token = r.token
    · have hs : q.settle r = { q with run := none, phase := .idle } := by
        simp only [State.settle, hqr, hr, he, if_true]
      have no_loop : ∀ t ∈ q.threads, t.role ≠ .foreground := by
        intro t ht hf
        rw [hqt] at ht
        obtain ⟨ht, hl⟩ := List.mem_filter.mp ht
        obtain ⟨r', hr', htoken⟩ := h.loops t ht hf
        rw [hr] at hr'
        cases hr'
        simp [Thread.isLoopOf, hf, htoken, he] at hl
      have hg : q.going = [] := by
        have hqc : q.isCancelled current.token = true := by
          rw [isCancelled_clear, he, Bool.or_eq_true]
          exact Or.inr hc
        rw [going_of_run (hqr.trans hr), if_pos hqc]
      have ended := hq.ended
      have count := hq.stopped
      rw [hg] at ended count
      rw [hs]
      constructor
      · exact hs ▸ hq.orderly.settle r
      · exact fun t ht hf => absurd hf (no_loop t ht)
      · exact hq.single
      · exact hq.granted
      · exact hq.started
      · exact ended
      · exact count
    · have hs : q.settle r = q := by simp only [State.settle, hqr, hr, he, if_false]
      rwa [hs]

theorem Accounts.work (h : Accounts log runs s) (setup : Setup) (w : World) {job : Job}
    (hj : job.sparesRuns = true) : Accounts log runs (job.run setup w s).state := by
  obtain ⟨new, events, quiet⟩ := job.events_run setup w s hj
  have orderly := h.orderly.work setup w job
  by_cases hd : job.isDecisive = true
  · cases job with
    | clear => exact h.clear
    | enlistOpen r o =>
      refine h.congr orderly ?_ ?_ ?_ events quiet
      all_goals
        simp only [Job.run, State.enlist, State.startPolling]
        split
        · rfl
        · split <;> simp [spawn]
    | halt | settle => cases hj
    | _ => cases hd
  · obtain ⟨step, n, hs⟩ := job.kept_run setup w s (by simpa using hd)
    exact h.congr orderly (by rw [hs]) (by rw [hs]) (by rw [hs]) events quiet

end State

/-- The accounts are kept in every life. -/
theorem Life.accounts {setup : Setup} {log : List (Intervention × Option Bool)} {runs : List Run}
    {s : State} (h : Life setup log runs s) : s.Accounts log runs := by
  induction h with
  | fresh => exact State.accounts_fresh
  | @intervene log runs s i _ ih =>
    cases i with
    | start script => exact ih.start setup script
    | pause =>
      have kept := ih.change (e := .scriptPaused) (.inl rfl) (.inr rfl) rfl (by simp)
      exact kept.logged _ _ (s.change_run _ _ _) rfl
    | resume =>
      have kept := ih.change (e := .scriptResumed) (.inr rfl) (.inl rfl) rfl (by simp)
      exact kept.logged _ _ (s.change_run _ _ _) rfl
    | stop => exact ih.stop.logged _ _ s.stop_run rfl
  | windUp r _ hc ih => exact ih.windUp hc
  | work w job _ hj ih => exact ih.work setup w hj

/-- A run that winds up is stopped, and leaves the engine idle; any other leaves the phase as it
is. -/
theorem State.windUp_phase {s : State} (h : s.Orderly) {r : Run}
    (hc : s.isCancelled r.token = true) :
    (s.windUp r).phase = s.phase ∨ s.phase = .stopped ∧ (s.windUp r).phase = .idle := by
  unfold windUp settle
  rw [clear_run]
  cases hr : s.run with
  | none => exact .inl (clear_phase _)
  | some current =>
    dsimp only
    by_cases he : current.token = r.token
    · rw [if_pos he]
      exact .inr ⟨h.stopped_iff.mpr ⟨current, hr, he ▸ hc⟩, rfl⟩
    · rw [if_neg he]
      exact .inl (clear_phase _)

/-- In every life the phase tells of the current run and its token, and changes only along the
table; only one run has a loop at any time; and each start that was granted was told once, and each
run that was stopped was told to be once. -/
theorem Life.lawful {setup : Setup} {log : List (Intervention × Option Bool)} {runs : List Run}
    {s : State} (h : Life setup log runs s) :
    (s.phase = .idle ↔ s.run = none) ∧
    (s.phase = .stopped ↔ ∃ r, s.run = some r ∧ s.isCancelled r.token = true) ∧
    (s.phase = .running ∨ s.phase = .paused ↔
      ∃ r, s.run = some r ∧ s.isCancelled r.token = false) ∧
    (∀ i : Intervention, (i.take setup s).2.phase = (i.change setup s.phase).getD s.phase ∧
      ∀ ok, (i.take setup s).1 = some ok → ok = (i.change setup s.phase).isSome) ∧
    (∀ r : Run, s.isCancelled r.token = true →
      (s.windUp r).phase = s.phase ∨ s.phase = .stopped ∧ (s.windUp r).phase = .idle) ∧
    (∀ w (job : Job), job.sparesRuns = true → (job.run setup w s).state.phase = s.phase) ∧
    s.threads.countP (·.role = .foreground) ≤ 1 ∧
    (granted log = runs.map fun r => r.script.name) ∧
    (s.events.filterMap Event.started? = runs.map fun r => r.script.name) ∧
    s.events.count .scriptStopped = runs.countP fun r => s.isCancelled r.token := by
  have a := h.accounts
  refine ⟨a.orderly.idle_iff, a.orderly.stopped_iff, a.orderly.going_iff,
    fun i => i.take_eq a.orderly, fun r => State.windUp_phase a.orderly,
    fun w job => job.phase_run setup w s, a.single, a.granted, a.started, ?_⟩
  have split := runs.length_eq_countP_add_countP (fun r => s.isCancelled r.token)
  have going : runs.countP (fun r => !s.isCancelled r.token) = s.going.length := by
    rw [List.countP_eq_length_filter, a.ended]
  have count := a.stopped
  simp only [Bool.not_eq_true, Bool.decide_eq_false] at split
  omega

/-- A run that is paused, stopped twice and wound up, and another one after it. -/
theorem lawful_restart :
    ∃ log runs s, Life ⟨{}, 500, true⟩ log runs s ∧ runs.length = 2 ∧ s.phase = .running ∧
      (∃ r, s.run = some r ∧ s.isCancelled r.token = false) ∧
      s.threads.countP (·.role = .foreground) ≤ 1 ∧ granted log = ["idler", "idler"] ∧
      s.events.count .scriptStopped = 1 := by
  let script : Script := { (default : Script) with name := "idler" }
  have first : Life ⟨{}, 500, true⟩ _ _ _ := .intervene .stop (.intervene .stop
    (.intervene .pause (.intervene (.start script) .fresh)))
  have life := Life.intervene (.start script) (first.windUp ⟨0, script⟩ rfl)
  obtain ⟨-, -, going, -, -, -, single, -, -, stopped⟩ := life.lawful
  exact ⟨_, _, _, life, rfl, rfl, going.mp (.inl rfl), single, rfl, stopped.trans rfl⟩

end DeskScript
