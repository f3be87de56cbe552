import DeskScript.Proofs.Enrolment
import DeskScript.Proofs.Parties

/-! What the strokes of a weave do, each in its turn. -/

namespace DeskScript

variable {setup : Setup} {w : World} {s : State} {t : Thread} {job : Job} {r : Run} {c c' : Scene}
  {k : Stroke} {ks : List Stroke}

/-! ### What stages do -/

theorem State.perm_enqueue (s : State) (t : Thread) :
    (s.enqueue t).threads.Perm (t :: s.threads) := by
  unfold enqueue
  dsimp only
  split
  · exact List.Perm.refl _
  · exact List.perm_append_singleton t s.threads

namespace Stage

theorem run_openRun_of_idle (h : s.phase = .idle) (script : Script) :
    Stage.run s (.openRun script) =
      ({ s with
          phase := .running, script := some script.withDefaults, currentStep := none, iterations := 0
          run := some ⟨s.issued, script.withDefaults⟩, issued := s.issued + 1 },
        [.tell (.scriptStarted script.name), .launch ⟨s.issued, script.withDefaults⟩]) := by
  simp [Stage.run, State.openRun, h]

theorem run_openRun_of_busy (h : s.phase ≠ .idle) (script : Script) :
    Stage.run s (.openRun script) = (s, []) := by
  simp [Stage.run, State.openRun, h]

theorem run_shift_of_eq {before : Phase} (h : s.phase = before) (after : Phase) (e : Event) :
    Stage.run s (.shift before after e) = ({ s with phase := after }, [.tell e]) := by
  simp [Stage.run, State.transition, h]

theorem run_shift_of_ne {before : Phase} (h : s.phase ≠ before) (after : Phase) (e : Event) :
    Stage.run s (.shift before after e) = (s, []) := by
  simp [Stage.run, State.transition, h]

theorem run_halt (s : State) : Stage.run s .halt =
    (s.halt.2, .clear :: if s.halt.1 then [.tell .scriptStopped] else []) := rfl

/-- Only the end of a run and its beginning take more than one stroke, but for what is told of them. -/
theorem mem_next {stage x : Stage} (h : x ∈ (stage.run s).2) :
    (∃ e, x = .tell e) ∨ (stage = .halt ∧ x = .clear) ∨
      ∃ script, stage = .openRun script ∧ s.phase = .idle ∧
        x = .launch ⟨s.issued, script.withDefaults⟩ := by
  cases stage with
  | openRun script =>
    by_cases hp : s.phase = .idle
    · rw [run_openRun_of_idle hp] at h
      simp only [List.mem_cons, List.not_mem_nil, or_false] at h
      rcases h with rfl | rfl
      · exact .inl ⟨_, rfl⟩
      · exact .inr (.inr ⟨script, rfl, hp, rfl⟩)
    · rw [run_openRun_of_busy hp] at h
      cases h
  | shift before after e =>
    by_cases hp : s.phase = before
    · rw [run_shift_of_eq hp] at h
      exact .inl ⟨e, List.mem_singleton.mp h⟩
    · rw [run_shift_of_ne hp] at h
      cases h
  | halt =>
    rw [run_halt] at h
    rcases List.mem_cons.mp h with rfl | h
    · exact .inr (.inl ⟨rfl, rfl⟩)
    · split at h
      · exact .inl ⟨_, List.mem_singleton.mp h⟩
      · cases h
  | _ => cases h

/-- The run that a stage opens. -/
def opened? (s : State) : Stage → Option Run
  | .openRun script => if s.phase = .idle then some ⟨s.issued, script.withDefaults⟩ else none
  | _ => none

theorem opened?_of_busy (h : s.phase ≠ .idle) (stage : Stage) : stage.opened? s = none := by
  cases stage <;> simp [opened?, h]

/-- Only an idle engine opens a run. -/
theorem opened?_eq_some {stage : Stage} (h : stage.opened? s = some r) :
    ∃ script, stage = .openRun script ∧ s.phase = .idle := by
  cases stage with
  | openRun script =>
    refine ⟨script, rfl, ?_⟩
    by_contra busy
    rw [opened?_of_busy busy] at h
    cases h
  | _ => cases h

/-- A stage leaves the run, unless it opens one. -/
theorem run_run (s : State) (stage : Stage) :
    (stage.run s).1.run = ((stage.opened? s).or s.run) := by
  cases stage with
  | openRun script =>
    by_cases hp : s.phase = .idle
    · rw [run_openRun_of_idle hp, opened?, if_pos hp]
      rfl
    · rw [run_openRun_of_busy hp, opened?, if_neg hp]
      rfl
  | shift before after e =>
    by_cases hp : s.phase = before
    · rw [run_shift_of_eq hp]
      rfl
    · rw [run_shift_of_ne hp]
      rfl
  | halt => exact s.halt_run
  | clear => exact s.clear_run
  | launch | tell | unregister | setActive | visit => rfl

/-- The threads that a stage brings. -/
def newcomers (s : State) : Stage → List Thread
  | .launch r => [⟨.foreground, some r.token, .iterate r :: State.closing r, State.closing r, s.clock⟩]
  | .visit => [⟨.visitor, none, [.survey], [], s.clock⟩]
  | _ => []

theorem threads_run (s : State) (stage : Stage) :
    (stage.run s).1.threads.Perm (stage.newcomers s ++ s.threads) := by
  cases stage with
  | openRun script =>
    by_cases hp : s.phase = .idle
    · rw [run_openRun_of_idle hp]
      exact List.Perm.refl _
    · rw [run_openRun_of_busy hp]
      exact List.Perm.refl _
  | launch r => exact List.perm_append_singleton _ _
  | shift before after e =>
    by_cases hp : s.phase = before
    · rw [run_shift_of_eq hp]
      exact List.Perm.refl _
    · rw [run_shift_of_ne hp]
      exact List.Perm.refl _
  | halt =>
    rw [run_halt, State.halt]
    split <;> exact List.Perm.refl _
  | clear => exact .of_eq s.clear_threads
  | tell | unregister | setActive => exact List.Perm.refl _
  | visit => exact s.perm_enqueue _

/-- The newcomer is the loop of a run, or is there for a tick. -/
theorem of_mem_newcomers {stage : Stage} {u : Thread} (h : u ∈ stage.newcomers s) :
    (∃ r, stage = .launch r ∧ u.Loops r ∧ u.work = .iterate r :: State.closing r) ∨
      u.role = .visitor ∧ u.closing = [] ∧ u.work = [.survey] := by
  cases stage with
  | launch r =>
    rw [List.mem_singleton.mp h]
    exact .inl ⟨r, rfl, Thread.loops_launch s r, rfl⟩
  | visit =>
    rw [List.mem_singleton.mp h]
    exact .inr ⟨rfl, rfl, rfl⟩
  | _ => cases h

theorem suits_newcomers {stage : Stage} {u : Thread} (h : u ∈ stage.newcomers s) (s' : State) :
    u.Suits s' := by
  rcases of_mem_newcomers h with ⟨r, -, loops, -⟩ | ⟨role, closing, hw⟩
  · exact .inl ⟨r, loops⟩
  · exact .inr ⟨by simp [role], closing, default, [], [.survey], hw, .nil _, fun hn => absurd rfl hn,
      by simp [Job.isOfTick]⟩

theorem loop?_newcomers (s : State) (stage : Stage) :
    (stage.newcomers s).filterMap Thread.loop? = stage.launched?.toList := by
  cases stage <;> rfl

/-- The loop of a run is launched after the run is opened. -/
theorem launched?_run (s : State) (stage : Stage) :
    (stage.run s).2.filterMap launched? = (stage.opened? s).toList := by
  cases stage with
  | openRun script =>
    by_cases hp : s.phase = .idle
    · rw [run_openRun_of_idle hp, opened?, if_pos hp]
      rfl
    · rw [run_openRun_of_busy hp, opened?, if_neg hp]
      rfl
  | shift before after e =>
    by_cases hp : s.phase = before
    · rw [run_shift_of_eq hp]
      rfl
    · rw [run_shift_of_ne hp]
      rfl
  | halt =>
    rw [run_halt]
    cases s.halt.1 <;> rfl
  | _ => rfl

end Stage

theorem Stage.later_run (s : State) (stage : Stage) : s.Later (stage.run s).1 := by
  cases stage with
  | openRun script =>
    by_cases hp : s.phase = .idle
    · rw [run_openRun_of_idle hp]
      refine ⟨Nat.le_succ _, fun _ hk => hk, ?_⟩
      rintro r ⟨⟩
      exact .inr (Nat.le_refl _)
    · rw [run_openRun_of_busy hp]
      exact .refl s
  | shift before after e =>
    by_cases hp : s.phase = before
    · rw [run_shift_of_eq hp]
      exact .same rfl rfl rfl
    · rw [run_shift_of_ne hp]
      exact .refl s
  | halt => exact s.later_halt
  | clear => exact s.later_clear
  | launch | tell | unregister | setActive => exact .same rfl rfl rfl
  | visit => exact .same rfl rfl rfl

/-- Stages keep order: only a run that goes on is paused, and only one that is paused goes on. -/
def Stage.IsMeet : Stage → Prop
  | .shift before after _ =>
    (before = .running ∨ before = .paused) ∧ (after = .running ∨ after = .paused)
  | _ => True

theorem State.Orderly.stage (h : s.Orderly) {stage : Stage} (meet : stage.IsMeet) :
    (stage.run s).1.Orderly := by
  cases stage with
  | openRun script =>
    simp only [Stage.run]
    cases ho : s.openRun script.withDefaults with
    | none => exact h
    | some opened => exact h.openRun ho
  | shift before after e =>
    simp only [Stage.run]
    cases ht : s.transition before after with
    | none => exact h
    | some s' => exact h.transition ht meet.1 meet.2
  | halt => exact h.halt
  | clear => exact h.clear
  | tell e => exact h.kept (State.kept_note _ _)
  | launch | unregister | setActive => exact h.congr rfl rfl rfl rfl rfl
  | visit => exact h.congr rfl rfl rfl rfl rfl

/-- No demand begins by clearing the registry or by launching a loop. -/
theorem Demand.of_mem_stages {q : Demand} {stage : Stage} (h : stage ∈ q.stages setup) :
    stage.IsMeet ∧ stage ≠ .clear ∧ stage.launched? = none := by
  cases q with
  | ask i =>
    cases i with
    | start script =>
      simp only [stages] at h
      split at h
      · rw [List.mem_singleton.mp h]
        exact ⟨trivial, by simp, rfl⟩
      · cases h
    | pause | resume =>
      rw [List.mem_singleton.mp h]
      exact ⟨⟨by simp, by simp⟩, by simp, rfl⟩
    | stop =>
      rw [List.mem_singleton.mp h]
      exact ⟨trivial, by simp, rfl⟩
  | _ =>
    rw [List.mem_singleton.mp h]
    exact ⟨trivial, by simp, rfl⟩

/-! ### What strokes do -/

/-- Work that does not wind up a run leaves the run. -/
theorem Job.run_run (h : ∀ r, job ≠ .settle r) : (job.run setup w s).state.run = s.run := by
  by_cases hd : job.isDecisive = true
  · cases job with
    | halt => exact s.halt_run
    | clear => exact s.clear_run
    | settle r => exact absurd rfl (h r)
    | enlistOpen r o => exact s.enlist_run setup o _
    | _ => cases hd
  · obtain ⟨step, n, hs⟩ := job.kept_run setup w s (by simpa using hd)
    rw [hs]

namespace Scene.Step

/-- A piece of work changes its thread, and no other; at most a watcher comes. The thread gets in line
only where it waits. -/
theorem split_work (st : c.Step setup (.worked w s t job) c') :
    ∃ rest due others new, s = c.state ∧ t ∈ c.active ∧ t.work = job :: rest ∧ c'.asked = c.asked ∧
      (∃ threads, c'.state = { (job.run setup w s).state with threads }) ∧
      c.threads.Perm (t :: others) ∧
      c'.threads.Perm (t.after (job.run setup w s) rest due :: (others ++ new)) ∧
      (∀ u ∈ new, ∃ k due, u = Thread.watcher k due) ∧
      (∀ u ∈ c'.active, u = t.after (job.run setup w s) rest due ∨ u ∈ c.active) ∧
      ∀ u ∈ c'.state.threads, u ∈ c.state.threads ∨ u ∈ new ∨
        u = t.after (job.run setup w s) rest due ∧
          ¬((job.run setup w s).pause = none ∧ job.asks = false) := by
  obtain ⟨new, hn, watchers⟩ := job.threads_run setup w c.state
  have others {before after : List Thread} (ha : c.active = before ++ t :: after) :
      c.threads.Perm (t :: (before ++ after ++ c.state.threads)) := by
    rw [Scene.threads, ha]
    exact List.perm_middle.append_right _
  have waits {before after : List Thread} (rest : Work) (due : Nat)
      (ha : c.active = before ++ t :: after)
      (pause : ¬((job.run setup w c.state).pause = none ∧ job.asks = false)) :
      let t' := t.after (job.run setup w c.state) rest due
      let c' : Scene := ⟨(job.run setup w c.state).state.enqueue t', before ++ after, c.asked⟩
      c'.threads.Perm (t' :: (before ++ after ++ c.state.threads ++ new)) ∧
        (∀ u ∈ c'.active, u = t' ∨ u ∈ c.active) ∧
        ∀ u ∈ c'.state.threads, u ∈ c.state.threads ∨ u ∈ new ∨ u = t' ∧
          ¬((job.run setup w c.state).pause = none ∧ job.asks = false) := by
    refine ⟨?_, fun u hu => .inr (mem_of_cut ha hu), fun u hu => ?_⟩
    · have line := State.perm_enqueue (job.run setup w c.state).state
        (t.after (job.run setup w c.state) rest due)
      rw [hn] at line
      refine (line.append_left (before ++ after)).trans ?_
      rw [List.append_assoc _ _ new]
      exact List.perm_middle
    · rcases Moment.mem_enqueue.mp hu with rfl | hu
      · exact .inr (.inr ⟨rfl, pause⟩)
      · rw [hn] at hu
        exact (List.mem_append.mp hu).imp_right .inl
  cases st with
  | @work _ _ before after job rest ha hw hp =>
    refine ⟨rest, t.due, before ++ after ++ c.state.threads, new, rfl, by simp [ha], hw, rfl,
      ⟨_, rfl⟩, others ha, ?_, watchers, fun u hu => ?_, fun u hu => ?_⟩
    · rw [Scene.threads, hn, List.append_assoc _ _ new]
      exact List.perm_middle.append_right _
    · exact (List.mem_cons.mp (List.perm_middle.mem_iff.mp hu)).imp_right (mem_of_cut ha)
    · rw [hn] at hu
      exact (List.mem_append.mp hu).imp_right .inl
  | @wait _ _ before after job rest ms ha hw hp =>
    obtain ⟨perm, active, line⟩ := waits rest (c.state.clock + ms.toNat) ha
      (by simp [hp])
    exact ⟨rest, _, before ++ after ++ c.state.threads, new, rfl, by simp [ha], hw, rfl, ⟨_, rfl⟩,
      others ha, perm, watchers, active, line⟩
  | @await _ due _ before after job rest ha hw hq =>
    obtain ⟨perm, active, line⟩ := waits rest due ha (by simp [hq])
    exact ⟨rest, _, before ++ after ++ c.state.threads, new, rfl, by simp [ha], hw, rfl, ⟨_, rfl⟩,
      others ha, perm, watchers, active, line⟩

theorem split_serve {stage : Stage} (st : c.Step setup (.served s stage) c') :
    s = c.state ∧ c'.active = c.active ∧ c'.state = (stage.run s).1 ∧
      ∃ others, c.stages.Perm (stage :: others) ∧ c'.stages.Perm ((stage.run s).2 ++ others) := by
  cases st with
  | @serve _ stages before after ha =>
    refine ⟨rfl, rfl, rfl, before.flatten ++ (stages ++ after.flatten), ?_, ?_⟩
    · rw [Scene.stages, ha, List.flatten_append, List.flatten_cons]
      exact List.perm_middle
    · simp only [Scene.stages, List.flatten_append, List.flatten_cons, List.append_assoc]
      exact List.perm_append_comm_assoc _ _ _

end Scene.Step

theorem Scene.Step.later (st : c.Step setup k c') : c.state.Later c'.state := by
  cases k with
  | arrived q =>
    obtain ⟨hs, -⟩ := st.after_arrive
    rw [hs]
    exact .refl _
  | served s stage =>
    obtain ⟨rfl, -, hs, -⟩ := st.split_serve
    rw [hs]
    exact stage.later_run _
  | worked w s t job =>
    obtain ⟨-, rfl, -, -, -, ⟨threads, hs⟩, -⟩ := st.after_work
    rw [hs]
    exact (job.later_run setup w c.state).trans (.same rfl rfl rfl)
  | shifted =>
    obtain ⟨⟨clock, threads, hs⟩, -⟩ := st.after_shift
    rw [hs]
    exact .same rfl rfl rfl

theorem Weave.later (v : Weave setup c ks c') : c.state.Later c'.state := by
  induction v with
  | refl => exact .refl _
  | snoc _ st ih => exact ih.trans st.later

/-! ### What strokes do to the registry -/

open Registry (Change)

def Stage.change? : Stage → Option Change
  | .clear => some .clear
  | .unregister id => some (.unregister id)
  | .setActive id active => some (.setActive id active)
  | _ => none

def Job.change? : Job → Option Change
  | .clear => some .clear
  | .enlistOpen r o => some (.register o (r.priority o.id))
  | _ => none

/-- The change that a stroke makes to the registry. -/
def Stroke.change? : Stroke → Option Change
  | .served _ stage => stage.change?
  | .worked _ _ _ job => job.change?
  | _ => none

theorem State.clear_registry (s : State) : s.clear.registry = s.registry.clear := by
  unfold clear
  split <;> rfl

theorem State.halt_registry (s : State) : s.halt.2.registry = s.registry := by
  unfold halt
  split <;> rfl

theorem Stage.registry_run (s : State) (stage : Stage) :
    (stage.run s).1.registry = stage.change?.elim s.registry (Change.apply s.registry) := by
  cases stage with
  | openRun script =>
    by_cases hp : s.phase = .idle
    · rw [run_openRun_of_idle hp]
      rfl
    · rw [run_openRun_of_busy hp]
      rfl
  | shift before after e =>
    by_cases hp : s.phase = before
    · rw [run_shift_of_eq hp]
      rfl
    · rw [run_shift_of_ne hp]
      rfl
  | halt => exact s.halt_registry
  | clear => exact s.clear_registry
  | launch | tell | unregister | setActive | visit => rfl

theorem Job.registry_run (setup : Setup) (w : World) (s : State) (job : Job) :
    (job.run setup w s).state.registry = job.change?.elim s.registry (Change.apply s.registry) := by
  by_cases hd : job.isDecisive = true
  · cases job with
    | halt => exact s.halt_registry
    | clear => exact s.clear_registry
    | settle r =>
      simp only [run, State.settle]
      split
      · split <;> rfl
      · rfl
    | enlistOpen r o => exact s.enlist_registry setup o _
    | _ => cases hd
  · obtain ⟨step, n, hs⟩ := job.kept_run setup w s (by simpa using hd)
    have none : job.change? = none := by
      cases job <;> first | rfl | exact absurd rfl hd
    rw [hs, none]
    rfl

/-- A stroke changes the registry as it says. -/
theorem Scene.Step.registry (st : c.Step setup k c') :
    c'.state.registry = k.change?.elim c.state.registry (Change.apply c.state.registry) := by
  cases k with
  | arrived q =>
    obtain ⟨hs, -⟩ := st.after_arrive
    rw [hs]
    rfl
  | served s stage =>
    obtain ⟨rfl, -, hs, -⟩ := st.split_serve
    rw [hs]
    exact stage.registry_run c.state
  | worked w s t job =>
    obtain ⟨-, rfl, -, -, -, ⟨threads, hs⟩, -⟩ := st.after_work
    rw [hs]
    exact job.registry_run setup w c.state
  | shifted =>
    obtain ⟨⟨clock, threads, hs⟩, -⟩ := st.after_shift
    rw [hs]
    rfl

end DeskScript
