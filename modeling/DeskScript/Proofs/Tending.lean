import DeskScript.Proofs.Concord
import DeskScript.Proofs.Histories

/-! The registry in the hands of everybody who holds it. Whatever they and the engine do to it, it holds
what the history of changes tells, and one thread polls it exactly while it is in use. -/

namespace DeskScript

open Registry (Change)

variable {setup : Setup} {w : World} {s s' : State} {t : Thread} {job : Job} {c c' : Scene}
  {k : Stroke} {past : List Change} {ts ws : List Thread} {p : Token}

/-! ### Scenes with a history -/

/-- The state after somebody who holds the registry has made the change. -/
def Registry.Change.make (setup : Setup) (s : State) : Change → State
  | .register o priority => s.enlist setup o priority
  | .unregister id => { s with registry := s.registry.unregister id }
  | .setActive id active => { s with registry := s.registry.setActive id active }
  | .clear => s.clear

/-- The scene can come about when, besides all that the engine and its threads do, anybody may change the
registry between two strokes; with all changes that have been made to it, the last of them first. -/
inductive Tended (setup : Setup) : List Change → Scene → Prop
  | fresh : Tended setup [] .fresh
  | changed {past : List Change} {c : Scene} (change : Change) : Tended setup past c →
      Tended setup (change :: past) { c with state := change.make setup c.state }
  | stroke {past : List Change} {c c' : Scene} {k : Stroke} : Tended setup past c →
      c.Step setup k c' → Tended setup (k.change?.toList ++ past) c'

/-- What is done in a weave belongs to the history. -/
theorem Tended.weave {ks : List Stroke} (h : Tended setup past c) (v : Weave setup c ks c') :
    Tended setup ((ks.filterMap Stroke.change?).reverse ++ past) c' := by
  induction v with
  | refl => exact h
  | @snoc c₁ c₂ ks k _ st ih =>
    have more : ((ks ++ [k]).filterMap Stroke.change?).reverse ++ past =
        k.change?.toList ++ ((ks.filterMap Stroke.change?).reverse ++ past) := by
      cases hk : k.change? <;> simp [hk]
    rw [more]
    exact ih.stroke st

namespace Registry.Change

theorem registry_make (setup : Setup) (s : State) (change : Change) :
    (change.make setup s).registry = change.apply s.registry := by
  cases change with
  | register o priority => exact s.enlist_registry setup o priority
  | unregister | setActive => rfl
  | clear => exact s.clear_registry

theorem run_make (setup : Setup) (s : State) (change : Change) :
    (change.make setup s).run = s.run := by
  cases change with
  | register o priority => exact s.enlist_run setup o priority
  | unregister | setActive => rfl
  | clear => exact s.clear_run

theorem later_make (setup : Setup) (s : State) (change : Change) :
    s.Later (change.make setup s) := by
  cases change with
  | register o priority => exact s.later_enlist setup o priority
  | unregister | setActive => exact .same rfl rfl rfl
  | clear => exact s.later_clear

theorem orderly_make (h : s.Orderly) (change : Change) : (change.make setup s).Orderly := by
  cases change with
  | register o priority => exact h.enlist setup o priority
  | unregister | setActive => exact h.congr rfl rfl rfl rfl rfl
  | clear => exact h.clear

end Registry.Change

/-- A scene is as sound as before if only threads come that poll the observers, and the run stays. -/
theorem Scene.Sound.adjust (h : c.Sound) (orderly : s'.Orderly) (later : c.state.Later s')
    (run : s'.run = c.state.run) (threads : s'.threads = c.state.threads ++ ws)
    (watchers : ∀ u ∈ ws, ∃ k due, u = Thread.watcher k due) :
    Scene.Sound { c with state := s' } := by
  have known (r : Run) (hk : c.state.Knows r) : s'.Knows r :=
    hk.mono later fun hr => .inl (run.trans hr)
  have none : ws.filterMap Thread.loop? = [] := by
    refine List.filterMap_eq_nil_iff.mpr fun u hu => ?_
    obtain ⟨k, due, rfl⟩ := watchers u hu
    exact Thread.loop?_of_role (by simp [Thread.watcher])
  refine ⟨orderly, h.meet, ?_, ?_, fun t ht => (h.active t ht).mono later known⟩
  · have loops : Scene.loops { c with state := s' } = c.loops := by
      simp [Scene.loops, Scene.threads, Scene.stages, threads, none]
    rw [loops, run]
    exact h.loops
  · intro t ht
    rw [threads] at ht
    rcases List.mem_append.mp ht with ht | ht
    · exact (h.line t ht).mono known
    · obtain ⟨k, due, rfl⟩ := watchers t ht
      exact .inr (Thread.watches_watcher _ k due)

/-! ### Threads that poll -/

/-- The token under which the thread polls the observers, unless that is cancelled. -/
def Thread.polls? (s : State) (t : Thread) : Option Token :=
  if t.role = .watcher then t.token.filter fun k => !s.isCancelled k else none

/-- The tokens under which the observers are polled. -/
def Scene.pollers (c : Scene) : List Token := c.threads.filterMap (Thread.polls? c.state)

namespace Thread

theorem polls?_eq_some : t.polls? s = some p ↔
    t.role = .watcher ∧ t.token = some p ∧ s.isCancelled p = false := by
  unfold polls?
  split <;> simp_all [Option.filter_eq_some_iff]

theorem polls?_of_role (h : t.role ≠ .watcher) : t.polls? s = none := if_neg h

/-- Cancelled threads poll no more, and others go on. -/
theorem polls?_later (later : s.Later s') (t : Thread) :
    t.polls? s' = (t.polls? s).filter fun k => !s'.isCancelled k := by
  unfold polls?
  split
  · rw [Option.filter_filter]
    congr 1
    funext k
    cases hc : s.isCancelled k with
    | false => rfl
    | true => simp [later.cancelled k hc]
  · rfl

/-- A thread that goes on after waiting polls as before. -/
theorem polls?_resume (s : State) (t : Thread) : (t.resume s).polls? s = t.polls? s := by
  unfold resume
  cases ht : t.token with
  | none => rfl
  | some k =>
    dsimp only
    split
    · rename_i hc
      simp [polls?, ht, Option.filter_some, hc]
    · rfl

end Thread

/-- Whether the registry is polled after the change, if the change decides on it. -/
def Registry.Change.polls? : Change → Option Bool
  | .register _ _ => some true
  | .clear => some false
  | .unregister _ | .setActive _ _ => none

/-- What becomes of the polling, with the threads that begin to poll: it is left as it is, whether or not
it is asked for, it begins where there is none, or it ends. -/
inductive State.Polls (s s' : State) : Option Bool → List Thread → Prop
  | stays {asked : Option Bool} : s'.polling = s.polling →
      (∀ p, s.polling = some p → s'.isCancelled p = s.isCancelled p) →
      s.polling.isSome = asked.getD s.polling.isSome → Polls s s' asked []
  | begins (due : Nat) : s.polling = none → s'.polling = some s.issued →
      s'.isCancelled s.issued = false → Polls s s' (some true) [.watcher s.issued due]
  | ends : s'.polling = none → (∀ p, s.polling = some p → s'.isCancelled p = true) →
      Polls s s' (some false) []

namespace State

namespace Polls

variable {asked : Option Bool}

theorem isSome_polling (h : s.Polls s' asked ws) :
    s'.polling.isSome = asked.getD s.polling.isSome := by
  cases h with
  | stays polling _ same =>
    rw [polling]
    exact same
  | begins due _ polling => rw [polling]; rfl
  | ends polling => rw [polling]; rfl

/-- Of the state afterwards only the tokens count. -/
theorem congr {s'' : State} (h : s.Polls s' asked ws) (polling : s''.polling = s'.polling)
    (cancelled : s''.cancelled = s'.cancelled) : s.Polls s'' asked ws := by
  have same := isCancelled_congr cancelled
  cases h with
  | stays kept live asked =>
    exact .stays (polling.trans kept) (fun p hp => (same p).trans (live p hp)) asked
  | begins due none begun fresh =>
    exact .begins due none (polling.trans begun) ((same _).trans fresh)
  | ends none dead => exact .ends (polling.trans none) fun p hp => (same p).trans (dead p hp)

theorem watchers (h : s.Polls s' asked ws) : ∀ u ∈ ws, ∃ k due, u = Thread.watcher k due := by
  cases h with
  | begins due => exact fun u hu => ⟨_, due, List.mem_singleton.mp hu⟩
  | stays | ends => simp

/-- Where one thread polls under the token that is kept, it is so afterwards. -/
theorem pollers (h : s.Polls s' asked ws) (later : s.Later s')
    (one : (ts.filterMap (Thread.polls? s)).Perm s.polling.toList) :
    ((ts ++ ws).filterMap (Thread.polls? s')).Perm s'.polling.toList := by
  have still : (ts.filterMap (Thread.polls? s')).Perm
      (s.polling.toList.filter fun k => !s'.isCancelled k) := by
    have cut : ts.filterMap (Thread.polls? s') =
        (ts.filterMap (Thread.polls? s)).filter fun k => !s'.isCancelled k := by
      rw [List.filter_filterMap]
      exact List.filterMap_congr fun t _ => Thread.polls?_later later t
    rw [cut]
    exact one.filter _
  have live : ∀ p, s.polling = some p → s.isCancelled p = false := by
    intro p hp
    have mem : p ∈ ts.filterMap (Thread.polls? s) := one.mem_iff.mpr (by simp [hp])
    obtain ⟨t, -, ht⟩ := List.mem_filterMap.mp mem
    exact (Thread.polls?_eq_some.mp ht).2.2
  rw [List.filterMap_append]
  cases h with
  | stays polling same =>
    rw [polling]
    cases hp : s.polling with
    | none => simpa [hp] using still
    | some p => simpa [hp, same p hp, live p hp] using still
  | begins due none polling fresh =>
    have new : Thread.polls? s' (.watcher s.issued due) = some s.issued :=
      Thread.polls?_eq_some.mpr ⟨rfl, rfl, fresh⟩
    rw [none] at still
    have nobody : ts.filterMap (Thread.polls? s') = [] := still.eq_nil
    simp [nobody, new, polling]
  | ends polling dead =>
    rw [polling]
    cases hp : s.polling with
    | none => simpa [hp] using still
    | some p => simpa [hp, dead p hp] using still

end Polls

theorem polls_same (polling : s'.polling = s.polling) (cancelled : s'.cancelled = s.cancelled) :
    s.Polls s' none [] :=
  .stays polling (fun p _ => isCancelled_congr cancelled p) rfl

theorem polls_clear (s : State) : s.Polls s.clear (some false) [] :=
  .ends s.hushes_clear.unpolled s.hushes_clear.polling

/-- A stop cancels the run and not the polling. -/
theorem polls_halt (h : s.Orderly) : s.Polls s.halt.2 none [] := by
  unfold halt
  split
  · rename_i r hr
    refine .stays rfl (fun p hp => ?_) rfl
    change (s.cancel r.token).isCancelled p = s.isCancelled p
    rw [isCancelled_cancel, decide_eq_false (h.polling_ne p r hp hr), Bool.false_or]
  · exact polls_same rfl rfl

theorem polls_enlist (threaded : setup.hasRuntime = true) (h : s.Orderly)
    (live : ∀ p, s.polling = some p → s.isCancelled p = false) (o : Observer) (priority : Int32) :
    ∃ ws, (s.enlist setup o priority).threads = s.threads ++ ws ∧
      s.Polls (s.enlist setup o priority) (some true) ws := by
  unfold enlist
  dsimp only
  split
  · rename_i hp
    refine ⟨[], by simp, .stays rfl (fun _ _ => rfl) ?_⟩
    cases hq : s.polling with
    | none => simp [isPolling, hq] at hp
    | some p => rfl
  · rename_i hp
    have none : s.polling = none := by
      cases hq : s.polling with
      | none => rfl
      | some p =>
        refine absurd ?_ hp
        simpa [isPolling, hq, isCancelled] using live p hq
    unfold startPolling
    rw [if_pos threaded]
    exact ⟨_, rfl, .begins s.clock none rfl h.fresh⟩

end State

/-! ### What changes, work and stages do to the polling -/

theorem Registry.Change.polls_make (threaded : setup.hasRuntime = true) (h : s.Orderly)
    (live : ∀ p, s.polling = some p → s.isCancelled p = false) (change : Change) :
    ∃ ws, (change.make setup s).threads = s.threads ++ ws ∧
      s.Polls (change.make setup s) change.polls? ws := by
  cases change with
  | register o priority => exact State.polls_enlist threaded h live o priority
  | unregister id | setActive id active =>
    exact ⟨[], (List.append_nil _).symm, State.polls_same rfl rfl⟩
  | clear => exact ⟨[], s.clear_threads.trans (List.append_nil _).symm, s.polls_clear⟩

theorem Job.polls_run (threaded : setup.hasRuntime = true) (h : s.Orderly)
    (live : ∀ p, s.polling = some p → s.isCancelled p = false) (w : World) (job : Job) :
    ∃ ws, (job.run setup w s).state.threads = s.threads ++ ws ∧
      s.Polls (job.run setup w s).state (job.change?.bind Change.polls?) ws := by
  by_cases hd : job.isDecisive = true
  · cases job with
    | halt =>
      refine ⟨[], ?_, State.polls_halt h⟩
      rw [List.append_nil]
      simp only [run, State.halt]
      split <;> rfl
    | clear => exact ⟨[], s.clear_threads.trans (List.append_nil _).symm, s.polls_clear⟩
    | settle r =>
      refine ⟨[], ?_, ?_⟩
      · rw [List.append_nil]
        simp only [run, State.settle]
        split
        · split <;> rfl
        · rfl
      · simp only [run, State.settle]
        split
        · split <;> exact State.polls_same rfl rfl
        · exact State.polls_same rfl rfl
    | enlistOpen r o => exact State.polls_enlist threaded h live o _
    | _ => cases hd
  · obtain ⟨step, n, kept⟩ := job.kept_run setup w s (by simpa using hd)
    have none : job.change? = none := by
      cases job <;> first | rfl | exact absurd rfl hd
    rw [kept, none]
    exact ⟨[], (List.append_nil _).symm, State.polls_same rfl rfl⟩

theorem Stage.polls_run (h : s.Orderly) (stage : Stage) :
    s.Polls (stage.run s).1 (stage.change?.bind Change.polls?) [] := by
  cases stage with
  | openRun script =>
    by_cases hp : s.phase = .idle
    · rw [run_openRun_of_idle hp]
      exact State.polls_same rfl rfl
    · rw [run_openRun_of_busy hp]
      exact State.polls_same rfl rfl
  | shift before after e =>
    by_cases hp : s.phase = before
    · rw [run_shift_of_eq hp]
      exact State.polls_same rfl rfl
    · rw [run_shift_of_ne hp]
      exact State.polls_same rfl rfl
  | halt => exact State.polls_halt h
  | clear => exact s.polls_clear
  | launch | tell | unregister | setActive | visit => exact State.polls_same rfl rfl

/-! ### Threads that stay -/

/-- A thread that polls is to go on with its next tick at the end of its work. -/
def Thread.Stays (s : State) (t : Thread) : Prop :=
  ∀ k, t.polls? s = some k → ∃ job ∈ t.work.getLast?, job = .watch k ∨ job = .relax k

namespace Thread.Stays

theorem mono (h : t.Stays s) (later : s.Later s') : t.Stays s' := by
  intro k hk
  obtain ⟨role, token, live⟩ := polls?_eq_some.mp hk
  exact h k (polls?_eq_some.mpr ⟨role, token, later.live live⟩)

theorem watcher (s : State) (k : Token) (due : Nat) : (watcher k due).Stays s := by
  intro p hp
  obtain ⟨-, token, -⟩ := polls?_eq_some.mp hp
  cases token
  exact ⟨_, rfl, .inl rfl⟩

theorem of_role (h : t.role ≠ .watcher) : t.Stays s := by
  intro k hk
  exact absurd (polls?_eq_some.mp hk).1 h

theorem ne_nil (h : t.Stays s) (hk : t.polls? s = some p) : t.work ≠ [] := by
  obtain ⟨job, hj, -⟩ := h p hk
  rintro hw
  simp [hw] at hj

theorem resume (h : t.Stays s) : (t.resume s).Stays s := by
  intro k hk
  have same : t.resume s = t := by
    obtain ⟨-, token, live⟩ := polls?_eq_some.mp ((polls?_resume s t).symm.trans hk)
    simp [Thread.resume, token, live]
  rw [same] at hk ⊢
  exact h k hk

/-- The last piece of work of a thread that polls leaves the wait for the next tick, or that tick. -/
theorem after {rest : Work} (h : t.Stays s) (hw : t.work = job :: rest) (later : s.Later s')
    (due : Nat) : (t.after (job.run setup w s) rest due).Stays s' := by
  intro k hk
  obtain ⟨role, token, live'⟩ := polls?_eq_some.mp hk
  have live : s.isCancelled k = false := later.live live'
  obtain ⟨last, hl, tick⟩ := h k (polls?_eq_some.mpr ⟨role, token, live⟩)
  rw [hw] at hl
  change ∃ job' ∈ ((job.run setup w s).next ++ rest).getLast?, job' = .watch k ∨ job' = .relax k
  cases rest with
  | cons j rest =>
    rw [List.getLast?_cons_cons] at hl
    refine ⟨last, ?_, tick⟩
    rw [List.getLast?_append, hl]
    rfl
  | nil =>
    obtain rfl : job = last := Option.some.inj hl
    rw [List.append_nil]
    rcases tick with rfl | rfl
    · simp [Job.run, Job.guarded, live]
    · simp [Job.run, Job.guarded, live]

end Thread.Stays

/-! ### Strokes -/

namespace Scene.Step

/-- A piece of work changes its own thread, and the threads in line as it does by itself. -/
theorem perm_work (st : c.Step setup (.worked w s t job) c') : ∃ rest due others,
    c.active.Perm (t :: others) ∧ c'.threads.Perm
      (t.after (job.run setup w c.state) rest due :: (others ++ (job.run setup w c.state).state.threads))
    := by
  have line (others : List Thread) (t' : Thread) :
      (others ++ ((job.run setup w c.state).state.enqueue t').threads).Perm
        (t' :: (others ++ (job.run setup w c.state).state.threads)) :=
    ((State.perm_enqueue _ t').append_left others).trans List.perm_middle
  cases st with
  | @work _ _ before after job rest ha hw hp =>
    refine ⟨rest, t.due, before ++ after, ha ▸ List.perm_middle, ?_⟩
    exact List.perm_middle.append_right _
  | @wait _ _ before after job rest ms ha hw hp =>
    exact ⟨rest, _, before ++ after, ha ▸ List.perm_middle, line _ _⟩
  | @await _ due _ before after job rest ha hw hq =>
    exact ⟨rest, due, before ++ after, ha ▸ List.perm_middle, line _ _⟩

/-- Work changes no thread in what it polls, but for those that begin to. -/
theorem pollers_work (st : c.Step setup (.worked w s t job) c') : c'.pollers.Perm
    ((c.active ++ (job.run setup w c.state).state.threads).filterMap (Thread.polls? c'.state)) := by
  obtain ⟨rest, due, others, before, after⟩ := st.perm_work
  have same : (t.after (job.run setup w c.state) rest due).polls? c'.state = t.polls? c'.state := rfl
  refine (after.filterMap _).trans ?_
  rw [List.filterMap_cons, same, ← List.filterMap_cons, ← List.cons_append]
  exact (before.symm.append_right _).filterMap _

end Scene.Step

namespace Scene

/-- What holds in every scene when the registry is in use and when it is not. -/
structure Follows (c : Scene) (past : List Change) : Prop where
  sound : c.Sound
  registry : c.state.registry = Registry.after past
  inUse : c.state.polling.isSome = true ↔ Registry.IsInUse past
  pollers : c.pollers.Perm c.state.polling.toList
  stays : ∀ t ∈ c.threads, t.Stays c.state

namespace Follows

theorem fresh : Scene.fresh.Follows [] where
  sound := Scene.sound_fresh
  registry := rfl
  inUse := by simp [Scene.fresh, Registry.not_isInUse_nil]
  pollers := List.Perm.refl _
  stays := by simp [Scene.fresh, threads]

theorem live (h : c.Follows past) : ∀ p, c.state.polling = some p → c.state.isCancelled p = false := by
  intro p hp
  have mem : p ∈ c.pollers := h.pollers.mem_iff.mpr (by simp [hp])
  obtain ⟨t, -, ht⟩ := List.mem_filterMap.mp mem
  exact (Thread.polls?_eq_some.mp ht).2.2

/-- What the history says of the registry and its polling goes on to be true. -/
theorem next (h : c.Follows past) (change : Option Change) (ws : List Thread) (sound : c'.Sound)
    (registry : c'.state.registry =
      change.elim c.state.registry (Change.apply c.state.registry))
    (polls : c.state.Polls c'.state (change.bind Change.polls?) ws) (later : c.state.Later c'.state)
    (threads : c'.pollers.Perm ((c.threads ++ ws).filterMap (Thread.polls? c'.state)))
    (stays : ∀ t ∈ c'.threads, t.Stays c'.state) : c'.Follows (change.toList ++ past) := by
  refine ⟨sound, ?_, ?_, threads.trans (polls.pollers later h.pollers), stays⟩
  · rw [registry, h.registry]
    cases change <;> rfl
  · rw [polls.isSome_polling]
    cases change with
    | none => exact h.inUse
    | some change =>
      change _ ↔ Registry.IsInUse (change :: past)
      rw [Registry.isInUse_cons]
      cases change with
      | register o priority => simp [Change.polls?]
      | unregister | setActive => simpa [Change.polls?] using h.inUse
      | clear => simp [Change.polls?]

theorem arrive {q : Demand} (h : c.Follows past) (st : c.Step setup (.arrived q) c') :
    c'.Follows past := by
  obtain ⟨hs, ha, -⟩ := st.after_arrive
  have threads : c'.threads = c.threads := by rw [Scene.threads, Scene.threads, hs, ha]
  refine h.next none [] (h.sound.step st) ?_ ?_ st.later ?_ ?_
  · rw [hs]
    rfl
  · rw [hs]
    exact State.polls_same rfl rfl
  · rw [Scene.pollers, threads, List.append_nil]
  · rw [threads, hs]
    exact h.stays

theorem serve {stage : Stage} (h : c.Follows past) (st : c.Step setup (.served s stage) c') :
    c'.Follows (stage.change?.toList ++ past) := by
  have registry := st.registry
  have sound := h.sound.step st
  have later := st.later
  obtain ⟨rfl, ha, hs, -⟩ := st.split_serve
  have threads : c'.threads.Perm (stage.newcomers c.state ++ c.threads) := by
    rw [Scene.threads, ha, hs]
    exact ((stage.threads_run c.state).append_left _).trans (List.perm_append_comm_assoc _ _ _)
  have role : ∀ u ∈ stage.newcomers c.state, u.role ≠ .watcher := by
    intro u hu
    rcases Stage.of_mem_newcomers hu with ⟨r, -, loops, -⟩ | ⟨role, -, -⟩
    · simp [loops.role]
    · simp [role]
  refine h.next stage.change? [] sound registry (hs ▸ stage.polls_run h.sound.orderly) later ?_ ?_
  · refine (threads.filterMap _).trans (.of_eq ?_)
    rw [List.filterMap_append, List.append_nil,
      List.filterMap_eq_nil_iff.mpr fun u hu => Thread.polls?_of_role (role u hu), List.nil_append]
  · intro t ht
    rcases List.mem_append.mp (threads.mem_iff.mp ht) with ht | ht
    · exact .of_role (role t ht)
    · exact (h.stays t ht).mono later

theorem work (threaded : setup.hasRuntime = true) (h : c.Follows past)
    (st : c.Step setup (.worked w s t job) c') : c'.Follows (job.change?.toList ++ past) := by
  have registry := st.registry
  have sound := h.sound.step st
  have later := st.later
  have pollers := st.pollers_work
  obtain ⟨rest, due, others, new, rfl, ht, hw, -, ⟨line, hs⟩, before, after, watchers, -⟩ :=
    st.split_work
  obtain ⟨ws, threads, polls⟩ := job.polls_run threaded h.sound.orderly h.live w
  rw [threads, ← List.append_assoc] at pollers
  refine h.next job.change? ws sound registry ?_ later pollers ?_
  · rw [hs]
    exact polls.congr rfl rfl
  · intro u hu
    rcases List.mem_cons.mp (after.mem_iff.mp hu) with rfl | hu
    · exact (h.stays t (List.mem_append_left _ ht)).after hw later due
    · rcases List.mem_append.mp hu with hu | hu
      · exact (h.stays u (before.mem_iff.mpr (List.mem_cons_of_mem _ hu))).mono later
      · obtain ⟨k, due, rfl⟩ := watchers u hu
        exact .watcher _ k due

theorem shift (h : c.Follows past) (st : c.Step setup .shifted c') : c'.Follows past := by
  have registry := st.registry
  have sound := h.sound.step st
  have later := st.later
  obtain ⟨⟨clock, line, hs⟩, -⟩ := st.after_shift
  have polls : c.state.Polls c'.state none [] := by
    rw [hs]
    exact State.polls_same rfl rfl
  have same : Thread.polls? c'.state = Thread.polls? c.state := by rw [hs]; rfl
  refine h.next none [] sound registry polls later ?_ ?_
  · rw [List.append_nil, Scene.pollers, same]
    cases st with
    | part | pass => exact List.Perm.refl _
    | @turn t before after ht ready =>
      have split : (c.active ++ (before ++ t :: after)).Perm
          (t :: (c.active ++ (before ++ after))) := by
        rw [← List.append_assoc, ← List.append_assoc]
        exact List.perm_middle
      rw [Scene.threads, Scene.threads, ht, List.cons_append, List.filterMap_cons,
        Thread.polls?_resume, ← List.filterMap_cons]
      exact split.symm.filterMap _
    | @leave t before after ha hw =>
      have quits : t.polls? c.state = none := by
        cases hk : t.polls? c.state with
        | none => rfl
        | some k => exact absurd hw ((h.stays t (by simp [Scene.threads, ha])).ne_nil hk)
      simp [Scene.threads, ha, quits]
  · intro u hu
    refine Thread.Stays.mono ?_ later
    obtain ⟨-, -, others⟩ := st.after_shift
    rcases others u hu with hu | ⟨t, ht, rfl⟩
    · exact h.stays u hu
    · exact (h.stays t (List.mem_append_right _ ht)).resume

theorem stroke (threaded : setup.hasRuntime = true) (h : c.Follows past)
    (st : c.Step setup k c') : c'.Follows (k.change?.toList ++ past) := by
  cases k with
  | arrived q => exact h.arrive st
  | served s stage => exact h.serve st
  | worked w s t job => exact h.work threaded st
  | shifted => exact h.shift st

/-- Whoever changes the registry between two strokes keeps everything in order. -/
theorem changed (threaded : setup.hasRuntime = true) (h : c.Follows past) (change : Change) :
    Follows { c with state := change.make setup c.state } (change :: past) := by
  obtain ⟨ws, threads, polls⟩ := change.polls_make threaded h.sound.orderly h.live
  have later := change.later_make setup c.state
  have all : Scene.threads { c with state := change.make setup c.state } = c.threads ++ ws := by
    rw [Scene.threads, threads, ← List.append_assoc]
    rfl
  have sound := h.sound.adjust (change.orderly_make h.sound.orderly) later
    (change.run_make setup c.state) threads polls.watchers
  refine h.next (some change) ws sound (change.registry_make setup c.state) polls later ?_ ?_
  · rw [Scene.pollers, all]
  · intro t ht
    rw [all] at ht
    rcases List.mem_append.mp ht with ht | ht
    · exact (h.stays t ht).mono later
    · obtain ⟨k, due, rfl⟩ := polls.watchers t ht
      exact .watcher _ k due

end Follows

end Scene

theorem Tended.follows (threaded : setup.hasRuntime = true) (h : Tended setup past c) :
    c.Follows past := by
  induction h with
  | fresh => exact .fresh
  | changed change _ ih => exact ih.changed threaded change
  | stroke _ st ih => exact ih.stroke threaded st

/-- Whatever was done to the registry inside a runtime, by whom and when: it holds those observers that
the history tells, each once, with the block and the priority that it was registered with last, and active
unless it was switched off last. The sequence numbers are in the order of the registrations that the names
came in with. There is never more than one thread that polls, and there is one exactly while somebody was
registered since the registry was cleared last. -/
theorem Tended.faithful (threaded : setup.hasRuntime = true) (tended : Tended setup past c) :
    (c.state.registry.entries.map Entry.id).Nodup ∧
    (∀ o priority active,
      (∃ sequence, ⟨o, active, priority, sequence⟩ ∈ c.state.registry.entries) ↔
        Registry.Tells past o priority active) ∧
    (∀ e ∈ c.state.registry.entries, (∃ n, Registry.CameIn e.id past n) ∧
      ∀ f ∈ c.state.registry.entries, ∀ n m, Registry.CameIn e.id past n →
        Registry.CameIn f.id past m → (e.sequence < f.sequence ↔ n < m)) ∧
    c.threads.countP (fun t => (t.polls? c.state).isSome) ≤ 1 ∧
    (c.threads.countP (fun t => (t.polls? c.state).isSome) = 1 ↔ Registry.IsInUse past) ∧
    (c.state.isPolling = true ↔ Registry.IsInUse past) := by
  have h := tended.follows threaded
  have records : Registry.Records past c.state.registry := h.registry ▸ Registry.records_after past
  have count : c.threads.countP (fun t => (t.polls? c.state).isSome) =
      c.state.polling.toList.length := by
    rw [← h.pollers.length_eq, Scene.pollers, List.length_filterMap_eq_countP]
  refine ⟨records.names, fun o priority active => records.mem_iff, fun e he => ?_, ?_, ?_, ?_⟩
  · exact ⟨records.cameIn he, fun f hf n m => records.sequence_lt_iff he hf⟩
  · rw [count]
    cases c.state.polling <;> simp
  · rw [count, ← h.inUse]
    cases c.state.polling <;> simp
  · rw [← h.inUse, State.isPolling]
    cases hp : c.state.polling with
    | none => simp
    | some p => simp [h.live p hp]

/-- The first observer is polled when the registry is cleared and filled anew. Its name then leaves and
comes back, so that it is behind the other, which is switched off. -/
theorem faithful_comeback :
    ∃ past c, Tended ⟨{}, 500, true⟩ past c ∧
      (∃ t ∈ c.threads, t.role = .watcher ∧ t.polls? c.state = none) ∧
      c.threads.countP (fun t => (t.polls? c.state).isSome) = 1 ∧
      ∃ e ∈ c.state.registry.entries, ∃ f ∈ c.state.registry.entries, e.id = "b" ∧
        e.active = false ∧ f.id = "a" ∧ f.active = true ∧ f.priority = 7 ∧
        e.sequence < f.sequence := by
  let a : Observer := ⟨"a", .all [], []⟩
  let b : Observer := ⟨"b", .all [], []⟩
  let w : World := ⟨fun _ => .ok none, fun _ => .ok (), fun _ _ => .ok (), fun _ => .ok ()⟩
  let changes : List Change :=
    [.register a 7, .unregister "a", .setActive "b" false, .register b 3, .register a 5, .clear]
  let last (c : Scene) : Scene :=
    changes.foldr (fun change c => { c with state := change.make ⟨{}, 500, true⟩ c.state }) c
  let first : Scene :=
    { Scene.fresh with state := Change.make ⟨{}, 500, true⟩ {} (.register a 5) }
  obtain ⟨ks, c, v, -, found⟩ := @Scene.exists_weave ⟨{}, 500, true⟩ first w [.turn 0, .go 0]
    (fun ks c => ks.all (fun k => k.change?.isNone) &&
      (last c).threads.any fun t => t.role = .watcher && (t.polls? (last c).state).isNone)
    (by decide +kernel)
  simp only [Bool.and_eq_true, List.all_eq_true, List.any_eq_true] at found
  obtain ⟨unchanged, t, ht, watcher, quiet⟩ := found
  have none : ks.filterMap Stroke.change? = [] :=
    List.filterMap_eq_nil_iff.mpr fun k hk => Option.isNone_iff_eq_none.mp (unchanged k hk)
  have middle : Tended ⟨{}, 500, true⟩ [.register a 5] c := by
    have tended := (Tended.changed (.register a 5) .fresh).weave v
    rwa [none] at tended
  have tended : Tended ⟨{}, 500, true⟩ (changes ++ [.register a 5]) (last c) :=
    (((((middle.changed _).changed _).changed _).changed _).changed _).changed _
  obtain ⟨-, holds, order, -, one, -⟩ := Tended.faithful rfl tended
  obtain ⟨n, hb⟩ := (holds b 3 false).mpr
    ⟨[.register a 7, .unregister "a", .setActive "b" false], _, _, rfl, rfl, by
      simp [Change.Registers, Change.Removes, a, b], rfl⟩
  obtain ⟨m, ha⟩ := (holds a 7 true).mpr ⟨[], _, _, rfl, rfl, by simp, rfl⟩
  refine ⟨_, last c, tended, ⟨t, ht, by simpa using watcher, Option.isNone_iff_eq_none.mp quiet⟩,
    one.mpr ⟨[.register a 7, .unregister "a", .setActive "b" false], _, _, rfl, ⟨_, _, rfl⟩, by simp⟩,
    _, hb, _, ha, rfl, rfl, rfl, rfl, rfl, ?_⟩
  refine ((order _ hb).2 _ ha 3 6 ?_ ?_).mpr (by decide)
  · exact Registry.standing_since.mp rfl
  · exact Registry.standing_since.mp rfl

end DeskScript
