import DeskScript.Proofs.Leftovers

/-! Where a run is opened while no stop is being carried out, only a stop of its own takes anything from
it. -/

namespace DeskScript

variable {setup : Setup} {w : World} {s s' : State} {t : Thread} {job : Job} {rest : Work} {r : Run}
  {c c' : Scene} {k : Stroke} {ks : List Stroke} {lane : Lane}

/-! ### Stops that are being carried out -/

def Action.isStop : Action → Bool
  | .flow .stop => true
  | _ => false

def Step.isStop : Step → Bool
  | .action _ a => a.isStop
  | _ => false

namespace Job

/-- Whether the work stops the current run or clears the registry, or leads there whether or not its own
run has been stopped. -/
def isStopping : Job → Bool
  | .levelOpen _ step _ | .enter _ step | .body _ step => step.isStop
  | .aim _ a _ _ | .act _ a _ _ | .report _ a _ _ => a.isStop
  | .halt | .clear => true
  | _ => false

/-- The lane in whose steps the work is. -/
def lane? : Job → Option Lane
  | .level l _ | .levelOpen l _ _ | .enter l _ | .body l _ | .decide l _ _ _ => some l
  | _ => none

end Job

def Stage.isClear : Stage → Bool
  | .clear => true
  | _ => false

def Stage.isHalt : Stage → Bool
  | .halt => true
  | _ => false

def Stroke.stage? : Stroke → Option Stage
  | .served _ stage => some stage
  | _ => none

theorem Stroke.exists_of_stage? {k : Stroke} {stage : Stage} (h : k.stage? = some stage) :
    ∃ s, k = .served s stage := by
  cases k with
  | served s _ =>
    cases h
    exact ⟨s, rfl⟩
  | _ => cases h

/-- The thread that stops its run. -/
def Stroke.halting? : Stroke → Option Thread
  | .worked _ _ t .halt => some t
  | _ => none

theorem Stroke.exists_of_halting? {k : Stroke} {t : Thread} (h : k.halting? = some t) :
    ∃ w s, k = .worked w s t .halt := by
  unfold halting? at h
  split at h
  · cases h
    exact ⟨_, _, rfl⟩
  · cases h

namespace Thread

/-- The lane in whose steps the thread is. -/
def lane? (t : Thread) : Option Lane := t.work.findSome? Job.lane?

def isStopping (t : Thread) : Bool := t.work.any Job.isStopping

end Thread

namespace Scene

/-- The threads that do not drop their work when they have their turn. -/
def underWay (c : Scene) : List Thread :=
  c.active ++ c.state.threads.filter fun t => !t.token.any c.state.isCancelled

/-- Whether no stop is being carried out, from outside or by a step, and no run is to be wound up. -/
def isStill (c : Scene) : Bool :=
  c.stages.all (!·.isClear) && c.underWay.all (!·.isStopping)

theorem mem_underWay : t ∈ c.underWay ↔
    t ∈ c.active ∨ t ∈ c.state.threads ∧ t.token.any c.state.isCancelled = false := by
  simp [underWay]

/-- A thread that waits is under way if it is so later on. -/
theorem mem_underWay_of_later (later : c.state.Later s) (ht : t ∈ c.state.threads)
    (goes : t.token.any s.isCancelled = false) : t ∈ c.underWay := by
  refine mem_underWay.mpr (.inr ⟨ht, ?_⟩)
  cases hk : t.token with
  | none => rfl
  | some k =>
    rw [hk] at goes
    exact later.live goes

theorem mem_threads_of_mem_underWay (h : t ∈ c.underWay) : t ∈ c.threads :=
  List.mem_append.mpr ((mem_underWay.mp h).imp_right And.left)

end Scene

namespace Job

theorem isStopping_of_isOfTick (h : job.isOfTick = true) : job.isStopping = false := by
  cases job with
  | watch | survey | probe | takeIn | relax | giveWay => rfl
  | _ => cases h

/-- The registry is cleared after the run is stopped. -/
theorem eq_halt_of_clear_mem (h : .clear ∈ (job.run setup w s).next) : job = .halt := by
  cases job with
  | halt => rfl
  | level l steps =>
    cases steps with
    | nil => cases h
    | cons step steps =>
      simp only [run, guarded] at h
      split at h <;> simp at h
  | iterate | endIteration | enlist | watch | relax =>
    simp only [run, guarded] at h
    split at h <;> simp at h
  | levelOpen =>
    simp only [run, unlessPaused] at h
    split at h <;> simp at h
  | iterateOpen =>
    simp only [run] at h
    split at h <;> simp at h
  | body l step => cases step <;> simp [run, ofStep] at h
  | decide l q thens elses => cases q <;> simp [run] at h
  | aim step action since q => cases q <;> simp [run] at h
  | act step action since place =>
    simp only [run, perform] at h
    split at h <;> simp at h
  | report step action since ok =>
    simp only [run, afterAction] at h
    split at h <;> simp at h
  | probe q =>
    cases q with
    | ask e next => simp [run] at h
    | done fired => cases fired <;> simp [run] at h
  | takeIn o =>
    simp only [run] at h
    split at h <;> simp at h
  | _ => simp [run] at h

/-- Work does not lead to the registry being cleared, unless it stops the run. -/
theorem clear_notMem_next (going : job ≠ .halt) {behind : Work} (h : .clear ∉ behind) :
    .clear ∉ (job.run setup w s).next ++ behind := by
  intro hm
  rcases List.mem_append.mp hm with hm | hm
  · exact going (eq_halt_of_clear_mem hm)
  · exact h hm

/-- Only steps of a run that goes on lead to a stop that was not already being carried out. -/
theorem IsFor.isStopping_next (h : job.IsFor lane) (ended : s.isCancelled lane.run.token = true)
    (calm : job.isStopping = false) : ∀ j ∈ (job.run setup w s).next, j.isStopping = false := by
  cases job with
  | level l steps =>
    obtain rfl : l = lane := h
    cases steps with
    | nil => simp [run]
    | cons step steps => simp [run, guarded, ended]
  | levelOpen l step steps =>
    simp only [run, unlessPaused]
    split
    · simp
    · simpa [isStopping] using calm
  | enter l step => simpa [run, isStopping] using calm
  | body l step =>
    cases step with
    | action h a => simpa [run, ofStep, isStopping, Step.isStop] using calm
    | _ => simp [run, ofStep, isStopping]
  | decide l q thens elses => cases q <;> simp [run, isStopping]
  | aim step action since q => cases q <;> simpa [run, isStopping] using calm
  | act step action since place =>
    simp only [run, perform]
    split <;> simpa [isStopping] using calm
  | report step action since ok =>
    simp only [run, afterAction]
    split
    · cases calm
    · simp
  | enlist r o =>
    simp only [run, guarded]
    split <;> simp [isStopping]
  | halt | clear => cases calm
  | enlistOpen | rest | tell => simp [run]
  | _ => exact absurd h id

end Job

/-- Work in the middle of steps is in the steps of its lane. -/
theorem Lane.Path.lane? {path : Work} (h : lane.Path (job :: path)) (rest : Work) :
    (job :: path ++ rest).findSome? Job.lane? = some lane := by
  have own (j : Job) (hj : j ∈ job :: path) : j.lane? = none ∨ j.lane? = some lane := by
    have hf := h.own j hj
    cases j with
    | level | levelOpen | enter | body | decide => exact .inr (congrArg some hf)
    | _ => exact .inl rfl
  rw [List.findSome?_append]
  cases hf : (job :: path).findSome? Job.lane? with
  | none =>
    -- The last piece of work is to go on with the steps.
    have last := List.getLast?_eq_some_getLast (List.cons_ne_nil job path)
    have row := h.row _ last
    have none := List.findSome?_eq_none_iff.mp hf _ (List.getLast_mem (List.cons_ne_nil job path))
    generalize (job :: path).getLast (List.cons_ne_nil job path) = j at row none
    cases j with
    | level | levelOpen => cases none
    | _ => cases row
  | some l =>
    obtain ⟨j, hj, hl⟩ := List.exists_of_findSome?_eq_some hf
    rcases own j hj with none | same
    · cases none.symm.trans hl
    · rw [← hl, same]
      rfl

/-! ### Threads that do not harm a run -/

/-- The work in the steps of a lane is at no stop but one of the run itself. -/
def Lane.IsHarmless (s : State) (r : Run) (lane : Lane) (path : Work) : Prop :=
  lane.run = r ∧ .clear ∉ path ∨
    s.isCancelled lane.run.token = true ∧ ∀ job ∈ path, job.isStopping = false

/-- The thread is at no stop but one of the run itself. -/
inductive Thread.IsHarmless (s : State) (r : Run) (t : Thread) : Prop
  | loop {path outer : Work} : t.work = path ++ (outer ++ State.closing r) →
      Lane.Path ⟨r, true⟩ path → .clear ∉ path → r.Outer outer → IsHarmless s r t
  | steps {lane : Lane} {path ticks : Work} : t.work = path ++ ticks → lane.Path path →
      lane.IsHarmless s r path → (∀ job ∈ ticks, job.isOfTick = true) → IsHarmless s r t
  | ticks : (∀ job ∈ t.work, job.isOfTick = true) → IsHarmless s r t

/-- What a loop has before it outside the steps clears nothing. -/
theorem Run.Outer.clear_notMem {outer : Work} (h : r.Outer outer) : .clear ∉ outer := by
  cases h with
  | resting pauses =>
    intro hm
    rcases List.mem_append.mp hm with hm | hm
    · cases pauses _ hm
    · simp at hm
  | _ => simp

theorem Lane.IsHarmless.mono {path : Work} (h : lane.IsHarmless s r path) (later : s.Later s') :
    lane.IsHarmless s' r path :=
  h.imp_right fun h => ⟨later.cancelled _ h.1, h.2⟩

/-- Steps at which there is no harm lead to such steps, unless the run is stopped. -/
theorem Lane.IsHarmless.run {path : Work} (h : lane.IsHarmless s r (job :: path))
    (own : job.IsFor lane) (hj : lane.run = r → job ≠ .halt) :
    lane.IsHarmless s r ((job.run setup w s).next ++ path) := by
  rcases h with ⟨same, unclear⟩ | ⟨ended, calm⟩
  · exact .inl ⟨same, Job.clear_notMem_next (hj same) fun hm => unclear (List.mem_cons_of_mem _ hm)⟩
  · obtain ⟨first, behind⟩ := List.forall_mem_cons.mp calm
    exact .inr ⟨ended, List.forall_mem_append.mpr ⟨own.isStopping_next ended first, behind⟩⟩

namespace Thread.IsHarmless

theorem mono (h : t.IsHarmless s r) (later : s.Later s') : t.IsHarmless s' r := by
  cases h with
  | loop hw steps unclear outside => exact .loop hw steps unclear outside
  | steps hw steps harmless tick => exact .steps hw steps (harmless.mono later) tick
  | ticks tick => exact .ticks tick

/-- The thread does not clear the registry, and stops only the run itself. -/
theorem head (h : t.IsHarmless s r) (hw : t.work = job :: rest) :
    job ≠ .clear ∧ (job = .halt → ∃ lane, t.lane? = some lane ∧ lane.run = r) := by
  have of_lane {lane : Lane} {path ticks : Work} (hp : t.work = job :: path ++ ticks)
      (steps : lane.Path (job :: path)) (own : lane.run = r) :
      ∃ lane, t.lane? = some lane ∧ lane.run = r :=
    ⟨lane, by rw [Thread.lane?, hp, steps.lane? ticks], own⟩
  have of_calm (calm : job.isStopping = false) :
      job ≠ .clear ∧ (job = .halt → ∃ lane, t.lane? = some lane ∧ lane.run = r) := by
    constructor <;> rintro rfl <;> cases calm
  cases h with
  | @loop path outer hp steps unclear outside =>
    cases path with
    | cons j path =>
      obtain ⟨rfl, -⟩ := List.cons.inj (hw.symm.trans hp)
      exact ⟨fun hj => unclear (hj ▸ List.mem_cons_self), fun _ => of_lane hp steps rfl⟩
    | nil =>
      cases outer with
      | nil => exact absurd rfl outside.ne_nil
      | cons j outer =>
        obtain ⟨rfl, -⟩ := List.cons.inj (hw.symm.trans hp)
        refine ⟨fun hj => outside.clear_notMem (hj ▸ List.mem_cons_self), ?_⟩
        rintro rfl
        rcases outside.cases_cons with ⟨pause, -⟩ | ⟨-, hj⟩
        · cases pause
        · simp at hj
  | @steps lane path ticks hp steps harmless tick =>
    cases path with
    | cons j path =>
      obtain ⟨rfl, -⟩ := List.cons.inj (hw.symm.trans hp)
      rcases harmless with ⟨own, unclear⟩ | ⟨-, calm⟩
      · exact ⟨fun hj => unclear (hj ▸ List.mem_cons_self), fun _ => of_lane hp steps own⟩
      · exact of_calm (calm job List.mem_cons_self)
    | nil =>
      obtain rfl : ticks = job :: rest := hp.symm.trans hw
      exact of_calm (Job.isStopping_of_isOfTick (tick job List.mem_cons_self))
  | ticks tick => exact of_calm (Job.isStopping_of_isOfTick (tick job (hw ▸ List.mem_cons_self)))

/-- A tick leaves ticks, or steps of the current run. -/
theorem after_tick {due : Nat} (hr : s.run = some r) (hj : job.isOfTick = true)
    (tick : ∀ j ∈ rest, j.isOfTick = true) :
    (t.after (job.run setup w s) rest due).IsHarmless s r := by
  rcases Job.next_of_isOfTick hj setup w s with hn | ⟨o, r', -, hr', hn⟩
  · exact .ticks (List.forall_mem_append.mpr ⟨hn, tick⟩)
  · obtain rfl : r' = r := Option.some.inj (hr'.symm.trans hr)
    refine @steps _ _ _ ⟨r', false⟩ (job.run setup w s).next _ rfl ?_ (.inl ⟨rfl, ?_⟩) tick
    · rw [hn]
      exact .takenIn o ⟨r', false⟩
    · rw [hn]
      simp

/-- A thread that does no harm to the current run does none as long as the run goes on. -/
theorem after {due : Nat} (h : t.IsHarmless s r) (hw : t.work = job :: rest) (hr : s.run = some r)
    (live : (job.run setup w s).state.isCancelled r.token = false) :
    (t.after (job.run setup w s) rest due).IsHarmless s r := by
  have going : job ≠ .halt := by
    rintro rfl
    cases (State.isCancelled_halt hr).symm.trans live
  cases h with
  | @loop path outer hp steps unclear outside =>
    cases path with
    | cons j path =>
      obtain ⟨rfl, rfl⟩ := List.cons.inj (hw.symm.trans hp)
      have unclear' : .clear ∉ (job.run setup w s).next ++ path :=
        Job.clear_notMem_next going fun hm => unclear (List.mem_cons_of_mem _ hm)
      exact .loop (List.append_assoc _ _ _).symm steps.run unclear' outside
    | nil =>
      cases outer with
      | nil => exact absurd rfl outside.ne_nil
      | cons j outer =>
        obtain ⟨rfl, rfl⟩ := List.cons.inj (hw.symm.trans hp)
        have unclear : .clear ∉ (job.run setup w s).next ++ outer :=
          Job.clear_notMem_next going fun hm => outside.clear_notMem (List.mem_cons_of_mem _ hm)
        rcases outside.next setup w s with
          ⟨path, outer', hn, steps, outside'⟩ | ⟨hc, -⟩
        · rw [hn] at unclear
          refine @loop _ _ _ path outer' ?_ steps
            (fun hm => unclear (List.mem_append_left _ hm)) outside'
          rw [← List.append_assoc, ← hn, List.append_assoc]
          rfl
        · cases hc.symm.trans ((job.later_run setup w s).live live)
  | @steps lane path ticks hp steps harmless tick =>
    cases path with
    | cons j path =>
      obtain ⟨rfl, rfl⟩ := List.cons.inj (hw.symm.trans hp)
      exact @IsHarmless.steps _ _ _ _ ((job.run setup w s).next ++ path) _ (List.append_assoc _ _ _).symm steps.run
        (harmless.run steps.head fun _ => going) tick
    | nil =>
      obtain rfl : ticks = job :: rest := hp.symm.trans hw
      obtain ⟨hj, behind⟩ := List.forall_mem_cons.mp tick
      exact after_tick hr hj behind
  | ticks tick =>
    rw [hw] at tick
    obtain ⟨hj, behind⟩ := List.forall_mem_cons.mp tick
    exact after_tick hr hj behind

end Thread.IsHarmless

/-- Where there is no run and the thread is at no stop, it does no harm to the next run. -/
theorem Thread.isHarmless_of_calm (acts : t.Acts s) (none : s.run = none)
    (unlooped : ∀ r', t.loop? ≠ some r') (calm : t.isStopping = false) : t.IsHarmless s r := by
  rcases acts with (⟨r', loops⟩ | watches) | ⟨r', winds⟩
  · exact absurd loops.loop? (unlooped r')
  · obtain ⟨r', path, ticks, hw, steps, hk, tick⟩ := watches.work
    cases path with
    | nil => exact .ticks (by simpa [hw] using tick)
    | cons job path =>
      have ended : s.isCancelled r'.token = true := (hk (by simp)).resolve_left (by simp [none])
      have calm : ∀ j ∈ t.work, j.isStopping = false := by simpa [Thread.isStopping] using calm
      rw [hw, List.forall_mem_append] at calm
      exact .steps hw steps (.inr ⟨ended, calm.1⟩) tick
  · by_cases hw : t.work = []
    · exact .ticks (by simp [hw])
    · exact absurd (winds.loop? hw) (unlooped r')

/-! ### Runs that are confined to their own stops -/

/-- The run is the current one, and no stop is being carried out but its own. -/
structure Scene.Confined (c : Scene) (r : Run) : Prop where
  sound : c.Sound
  run : c.state.run = some r
  unclear : .clear ∉ c.stages
  harmless : ∀ t ∈ c.underWay, t.IsHarmless c.state r

namespace Scene

/-- A run is confined to its own stops where it is opened while no stop is being carried out. -/
theorem Sound.opens_confined {stage : Stage} (h : c.Sound) (still : c.isStill = true)
    (st : c.Step setup (.served c.state stage) c') (opens : stage.opened? c.state = some r) :
    c'.Confined r := by
  simp only [isStill, Bool.and_eq_true, List.all_eq_true, Bool.not_eq_true'] at still
  obtain ⟨unclear, calm⟩ := still
  obtain ⟨script, rfl, idle⟩ := Stage.opened?_eq_some opens
  have none : c.state.run = none := h.orderly.idle_iff.mp idle
  have later := st.later
  have sound := h.step st
  obtain ⟨-, -, ha, hs, fewer⟩ := st.after_serve
  constructor
  · exact sound
  · rw [hs, Stage.run_run, opens]
    rfl
  · intro hm
    rcases fewer _ hm with hm | hm
    · rcases Stage.mem_next hm with ⟨e, he⟩ | ⟨hc, -⟩ | ⟨script', -, -, hl⟩
      · cases he
      · cases hc
      · cases hl
    · cases unclear _ hm
  · intro t ht
    have ht : t ∈ c.underWay := by
      rw [mem_underWay] at ht ⊢
      rw [Stage.run_openRun_of_idle idle] at hs
      rw [ha, hs] at ht
      exact ht
    have mem : t ∈ c.threads := mem_threads_of_mem_underWay ht
    have acts : t.Acts c.state := (List.mem_append.mp mem).elim (h.active t) fun ht => .inl (h.line t ht)
    refine (Thread.isHarmless_of_calm acts none (fun r' hl => ?_) (calm t ht)).mono later
    cases none.symm.trans (h.run_of_loop mem hl)

namespace Confined

theorem arrive {q : Demand} (h : c.Confined r) (st : c.Step setup (.arrived q) c') : c'.Confined r := by
  have sound := h.sound.step st
  obtain ⟨hs, ha, more⟩ := st.after_arrive
  refine ⟨sound, hs ▸ h.run, fun hm => ?_, fun t ht => ?_⟩
  · exact (more _ hm).elim (fun hq => (Demand.of_mem_stages hq).2.1 rfl) h.unclear
  · rw [hs]
    refine h.harmless t ?_
    rwa [mem_underWay, hs, ha, ← mem_underWay] at ht

/-- The run stays the current one until it is stopped. -/
theorem run_of_step (h : c.Confined r) (st : c.Step setup k c')
    (live : c'.state.isCancelled r.token = false) : c'.state.run = some r := by
  refine (h.sound.knows st (.inl h.run)).resolve_right ?_
  simp [live]

theorem serve {stage : Stage} (h : c.Confined r) (st : c.Step setup (.served s stage) c')
    (live : c'.state.isCancelled r.token = false) : c'.Confined r := by
  have run := h.run_of_step st live
  have sound := h.sound.step st
  have later := st.later
  obtain ⟨rfl, mem, ha, hs, fewer⟩ := st.after_serve
  refine ⟨sound, run, fun hm => ?_, fun t ht => ?_⟩
  · rcases fewer _ hm with hm | hm
    · rcases Stage.mem_next hm with ⟨e, he⟩ | ⟨rfl, -⟩ | ⟨script, -, -, hl⟩
      · cases he
      · rw [hs] at live
        cases (State.isCancelled_halt h.run).symm.trans live
      · cases hl
    · exact h.unclear hm
  · rcases mem_underWay.mp ht with ht | ⟨ht, goes⟩
    · rw [ha] at ht
      exact (h.harmless t (mem_underWay.mpr (.inl ht))).mono later
    · rw [hs] at ht
      rcases List.mem_append.mp ((stage.threads_run c.state).mem_iff.mp ht) with ht | ht
      · rcases Stage.of_mem_newcomers ht with ⟨r', rfl, -, hw⟩ | ⟨-, -, hw⟩
        · obtain rfl : r' = r := Option.some.inj ((h.sound.run_of_launch mem).symm.trans h.run)
          exact @Thread.IsHarmless.loop _ _ _ [] [.iterate r'] hw (.nil _) (by simp)
            (@Run.Outer.resting r' [] (by simp))
        · exact .ticks (by simp [hw, Job.isOfTick])
      · exact (h.harmless t (mem_underWay_of_later later ht goes)).mono later

theorem work (h : c.Confined r) (st : c.Step setup (.worked w s t job) c')
    (live : c'.state.isCancelled r.token = false) : c'.Confined r := by
  have run := h.run_of_step st live
  have sound := h.sound.step st
  have later := st.later
  obtain ⟨rest, due, others, new, rfl, ht, hw, ha, ⟨line, hs⟩, -, -, watchers, active, line'⟩ :=
    st.split_work
  have stages : c'.stages = c.stages := by rw [Scene.stages, ha, Scene.stages]
  have becomes : (t.after (job.run setup w c.state) rest due).IsHarmless c.state r := by
    refine (h.harmless t (mem_underWay.mpr (.inl ht))).after hw h.run ?_
    rwa [hs] at live
  refine ⟨sound, run, stages ▸ h.unclear, fun u hu => ?_⟩
  rcases mem_underWay.mp hu with hu | ⟨hu, goes⟩
  · rcases active u hu with rfl | hu
    · exact becomes.mono later
    · exact (h.harmless u (mem_underWay.mpr (.inl hu))).mono later
  · rcases line' u hu with hu | hu | ⟨rfl, -⟩
    · exact (h.harmless u (mem_underWay_of_later later hu goes)).mono later
    · obtain ⟨k, due, rfl⟩ := watchers u hu
      exact .ticks (by simp [Thread.watcher, Job.isOfTick])
    · exact becomes.mono later

theorem shift (h : c.Confined r) (st : c.Step setup .shifted c')
    (live : c'.state.isCancelled r.token = false) : c'.Confined r := by
  have run := h.run_of_step st live
  have sound := h.sound.step st
  have later := st.later
  obtain ⟨-, fewer, -⟩ := st.after_shift
  refine ⟨sound, run, fun hm => h.unclear (fewer hm), fun u hu => ?_⟩
  refine Thread.IsHarmless.mono ?_ later
  cases st with
  | @part before after ha => exact h.harmless u hu
  | pass ms => exact h.harmless u hu
  | @turn t before after ht ready =>
    rcases mem_underWay.mp hu with hu | ⟨hu, goes⟩
    · rcases List.mem_cons.mp hu with rfl | hu
      · have mem : t ∈ c.state.threads := by simp [ht]
        rcases (h.sound.line t mem).resume with ⟨same, goes⟩ | ⟨hw, -⟩ | ⟨r', loops, winds, -⟩
        · rw [same]
          exact h.harmless t (mem_underWay.mpr (.inr ⟨mem, goes⟩))
        · exact .ticks (by simp [hw])
        · -- A loop drops its work only once its run is stopped, and the run goes on.
          have hr := h.sound.run_of_loop (List.mem_append_right _ mem) loops.loop?
          obtain rfl : r' = r := Option.some.inj (hr.symm.trans h.run)
          cases winds.cancelled.symm.trans (later.live live)
      · exact h.harmless u (mem_underWay.mpr (.inl hu))
    · exact h.harmless u (mem_underWay.mpr (.inr ⟨mem_of_cut ht hu, goes⟩))
  | @leave t before after ha hw =>
    exact h.harmless u (mem_underWay.mpr ((mem_underWay.mp hu).imp_left (mem_of_cut ha)))

/-- A run that goes on stays confined to its own stops. -/
theorem step (h : c.Confined r) (st : c.Step setup k c')
    (live : c'.state.isCancelled r.token = false) : c'.Confined r := by
  cases k with
  | arrived q => exact h.arrive st
  | served s stage => exact h.serve st live
  | worked w s t job => exact h.work st live
  | shifted => exact h.shift st live

end Confined

end Scene

theorem Weave.keeps_confined (v : Weave setup c ks c') (h : c.Confined r)
    (live : c'.state.isCancelled r.token = false) : c'.Confined r := by
  induction v with
  | refl => exact h
  | @snoc c₁ c₂ ks k v st ih =>
    exact (ih (st.later.live live)).step st live

/-! ### What a run loses -/

/-- An observer goes from the registry only where that is cleared, or the observer is unregistered or
replaced. -/
theorem Scene.Step.keeps_entry (st : c.Step setup k c') (unclear : k.change? ≠ some .clear) {e : Entry}
    (he : e ∈ c.state.registry.entries) :
    (∃ e' ∈ c'.state.registry.entries, e'.observer = e.observer) ∨
      k = .served c.state (.unregister e.id) ∨
      ∃ g, k.registration? = some g ∧ g.observer.id = e.id := by
  rw [st.registry]
  cases hk : k.change? with
  | none => exact .inl ⟨e, he, rfl⟩
  | some change =>
    cases change with
    | register o priority =>
      obtain ⟨g, hg, rfl, -⟩ := Stroke.change?_eq_register.mp hk
      by_cases same : g.observer.id = e.id
      · exact .inr (.inr ⟨g, hg, same⟩)
      · exact .inl ⟨e, Registry.mem_register.mpr (.inl ⟨he, Ne.symm same⟩), rfl⟩
    | unregister id =>
      by_cases same : e.id = id
      · subst same
        refine .inr (.inl ?_)
        cases k with
        | served s stage =>
          obtain ⟨rfl, -⟩ := st.split_serve
          cases stage with
          | unregister id =>
            cases hk
            rfl
          | _ => cases hk
        | worked w s t job => cases job <;> cases hk
        | _ => cases hk
      · exact .inl ⟨e, Registry.mem_unregister.mpr ⟨he, same⟩, rfl⟩
    | setActive id active =>
      refine .inl ?_
      by_cases same : e.id = id
      · exact ⟨{ e with active }, Registry.mem_setActive.mpr (.inr ⟨e, he, same, rfl⟩), rfl⟩
      · exact ⟨e, Registry.mem_setActive.mpr (.inl ⟨he, same⟩), rfl⟩
    | clear => exact absurd hk unclear

namespace Scene.Confined

/-- No thread that is active clears the registry. -/
theorem change?_ne_clear (h : c.Confined r) (st : c.Step setup k c') : k.change? ≠ some .clear := by
  intro hk
  cases k with
  | served s stage =>
    obtain ⟨-, mem, -⟩ := st.after_serve
    cases stage with
    | clear => exact h.unclear mem
    | _ => cases hk
  | worked w s t job =>
    obtain ⟨rest, rfl, ht, hw, -⟩ := st.after_work
    obtain ⟨other, -⟩ := (h.harmless t (mem_underWay.mpr (.inl ht))).head hw
    cases job with
    | clear => exact other rfl
    | _ => cases hk
  | _ => cases hk

/-- Only a step of the run itself stops it. -/
theorem lane_of_halt (h : c.Confined r) (st : c.Step setup (.worked w s t .halt) c') :
    ∃ lane, t.lane? = some lane ∧ lane.run = r := by
  obtain ⟨rest, -, ht, hw, -⟩ := st.after_work
  exact ((h.harmless t (mem_underWay.mpr (.inl ht))).head hw).2 rfl

end Scene.Confined

/-- Where threads give way only when they wait, no stop is being carried out while the engine is idle. -/
theorem Course.isStill {hs : List Happening} (v : Course setup .fresh hs ⟨s, none⟩)
    (idle : s.phase = .idle) : (Moment.scene ⟨s, none⟩).isStill = true := by
  have sound := v.sound Moment.sound_fresh
  have none : s.run = none := sound.orderly.idle_iff.mp idle
  have resting : (Moment.scene ⟨s, Option.none⟩).underWay = [] := by
    refine List.eq_nil_iff_forall_not_mem.mpr fun t ht => ?_
    rcases Scene.mem_underWay.mp ht with ht | ⟨ht, goes⟩
    · cases ht
    · have fits := sound.fits t ht
      obtain ⟨k, hk⟩ := Option.ne_none_iff_exists'.mp fits.token
      rw [hk] at goes
      obtain ⟨lane, -, grants, -⟩ := fits.serves k hk goes
      cases none.symm.trans grants.run
  rw [Scene.isStill, resting]
  rfl

/-- A run that is opened while no stop is being carried out is confined to its own stops. Until it is
stopped it is the current run; an observer goes only by being unregistered or replaced; and a step that
stops the current run is one of its own. -/
theorem Weave.confined {c₀ c₁ : Scene} {ks₀ : List Stroke} {stage : Stage}
    (v₀ : Weave setup .fresh ks₀ c₀) (still : c₀.isStill = true)
    (st₀ : c₀.Step setup (.served c₀.state stage) c₁) (opens : stage.opened? c₀.state = some r)
    (v : Weave setup c₁ ks c) (live : c.state.isCancelled r.token = false) (st : c.Step setup k c') :
    c.state.run = some r ∧
    (∀ e ∈ c.state.registry.entries, (∃ e' ∈ c'.state.registry.entries, e'.observer = e.observer) ∨
      k = .served c.state (.unregister e.id) ∨
      ∃ g, k.registration? = some g ∧ g.observer.id = e.id) ∧
    ∀ w s t, k = .worked w s t .halt → ∃ lane, t.lane? = some lane ∧ lane.run = r := by
  have confined : c.Confined r :=
    v.keeps_confined ((v₀.sound Scene.sound_fresh).opens_confined still st₀ opens) live
  refine ⟨confined.run, fun e he => st.keeps_entry (confined.change?_ne_clear st) he, ?_⟩
  rintro w s t rfl
  exact confined.lane_of_halt st

/-- A script with an observer that stops it. -/
def Script.brief : Script := { (default : Script) with
  name := "brief"
  steps := [
    .observer ⟨"end", none, none, none⟩ (.present (.position ⟨0, 0⟩))
      [.action ⟨"stop", none, none, none⟩ (.flow .stop)],
    .action ⟨"wait", none, none, none⟩ (.system (.wait 1000))] }

/-- A run is stopped and wound up, and after that another one is opened, which registers its observer. -/
theorem confined_reopened :
    ∃ ks₀ c₀ s stage c₁ r ks c k c', Weave ⟨{}, 500, true⟩ .fresh ks₀ c₀ ∧ c₀.isStill = true ∧
      c₀.Step ⟨{}, 500, true⟩ (.served s stage) c₁ ∧ stage.opened? c₀.state = some r ∧
      Weave ⟨{}, 500, true⟩ c₁ ks c ∧ c.state.isCancelled r.token = false ∧
      c.Step ⟨{}, 500, true⟩ k c' ∧ c.state.run = some r ∧
      ∃ e ∈ c.state.registry.entries, ∃ e' ∈ c'.state.registry.entries, e'.observer = e.observer := by
  let w : World := ⟨fun _ => .ok (some ⟨0, 0⟩), fun _ => .ok (), fun _ _ => .ok (), fun _ => .ok ()⟩
  let registering : List Pick := [.serve 2, .serve 2, .turn 1] ++ List.replicate 9 (.go 0)
  obtain ⟨ks₀, c₀, v₀, -, found⟩ := @Scene.exists_weave ⟨{}, 500, true⟩ .fresh w
    ([.ask (.start .brief), .serve 0, .serve 0, .serve 0, .turn 0] ++ List.replicate 18 (.go 0) ++
      [.ask .stop, .serve 1, .serve 1, .serve 1, .turn 1, .go 0, .go 0, .ask (.start .brief)])
    (fun _ c₀ => c₀.isStill && (c₀.next ⟨{}, 500, true⟩ w (.serve 2)).any fun x₁ =>
      x₁.1.stage?.any fun stage => (stage.opened? c₀.state).any fun r =>
        (x₁.2.follow ⟨{}, 500, true⟩ w registering).any fun x =>
          !x.2.state.isCancelled r.token && !x.2.state.registry.entries.isEmpty &&
            (x.2.next ⟨{}, 500, true⟩ w (.go 0)).any (·.1.change?.isNone))
    (by decide +kernel)
  simp only [Bool.and_eq_true, Option.any_eq_true, Bool.not_eq_true', Option.isNone_iff_eq_none,
    List.isEmpty_eq_false_iff_exists_mem] at found
  obtain ⟨still, ⟨k₀, c₁⟩, next₀, stage, served, r, opens, ⟨ks, c⟩, follows, ⟨live, e, he⟩, ⟨k, c'⟩,
    next, unchanged⟩ := found
  obtain ⟨s, rfl⟩ := Stroke.exists_of_stage? served
  have st₀ := Scene.step_next next₀
  have st := Scene.step_next next
  have v := Scene.weave_follow follows
  obtain ⟨rfl, -⟩ := st₀.split_serve
  obtain ⟨run, entries, -⟩ := v₀.confined still st₀ opens v live st
  refine ⟨ks₀, c₀, _, stage, c₁, r, ks, c, k, c', v₀, still, st₀, opens, v, live, st, run, e, he, ?_⟩
  rcases entries e he with kept | rfl | ⟨g, hg, ho⟩
  · exact kept
  · cases unchanged
  · cases unchanged.symm.trans (Stroke.change?_eq_register.mpr ⟨g, hg, rfl, rfl⟩)

/-- A run that is opened while a stop is being carried out loses its observer to the rest of that stop.
And a step of a run that has been stopped stops the next one. -/
theorem confined_hurried :
    (∃ ks₀ c₀ s stage c₁ r ks c c', Weave ⟨{}, 500, true⟩ .fresh ks₀ c₀ ∧
      c₀.Step ⟨{}, 500, true⟩ (.served s stage) c₁ ∧ stage.opened? c₀.state = some r ∧
      Weave ⟨{}, 500, true⟩ c₁ ks c ∧ c.state.isCancelled r.token = false ∧
      c.Step ⟨{}, 500, true⟩ (.served c.state .clear) c' ∧ (∀ s, .served s .halt ∉ ks) ∧
      (∃ e ∈ c.state.registry.entries, ∃ g, lastRegistration e.id ks = some g ∧
        g.run.token = r.token) ∧ c'.state.registry.entries = []) ∧
    ∃ ks c w t lane r c', Weave ⟨{}, 500, true⟩ .fresh ks c ∧ c.state.run = some r ∧
      c.state.isCancelled r.token = false ∧
      c.Step ⟨{}, 500, true⟩ (.worked w c.state t .halt) c' ∧ t.lane? = some lane ∧
      lane.run.token ≠ r.token ∧ c'.state.isCancelled r.token = true := by
  let w : World := ⟨fun _ => .ok (some ⟨0, 0⟩), fun _ => .ok (), fun _ _ => .ok (), fun _ => .ok ()⟩
  let waiting : List Pick :=
    [.ask (.start .brief), .serve 0, .serve 0, .serve 0, .turn 0] ++ List.replicate 18 (.go 0)
  constructor
  · -- The stop has halted the first run, but not yet cleared the registry.
    obtain ⟨ks₀, c₀, v₀, -, found⟩ := @Scene.exists_weave ⟨{}, 500, true⟩ .fresh w
      (waiting ++ [.ask .stop, .serve 1, .turn 1, .go 0, .go 0, .ask (.start .brief)])
      (fun _ c₀ => (c₀.next ⟨{}, 500, true⟩ w (.serve 2)).any fun x₁ =>
        x₁.1.stage?.any fun stage => (stage.opened? c₀.state).any fun r =>
          (x₁.2.follow ⟨{}, 500, true⟩ w ([.serve 2, .serve 2, .turn 1] ++
            List.replicate 9 (.go 0))).any fun x =>
            !x.2.state.isCancelled r.token &&
            (x.2.next ⟨{}, 500, true⟩ w (.serve 1)).any (fun x' =>
              x'.1.stage?.any Stage.isClear && x'.2.state.registry.entries.isEmpty) &&
            x.1.all (!·.stage?.any Stage.isHalt) &&
            x.2.state.registry.entries.any fun e =>
              (lastRegistration e.id x.1).any fun g => g.run.token == r.token)
      (by decide +kernel)
    simp only [Option.any_eq_true, Bool.and_eq_true, Bool.not_eq_true', List.all_eq_true,
      List.any_eq_true, beq_iff_eq] at found
    obtain ⟨⟨k₀, c₁⟩, next₀, stage, served, r, opens, ⟨ks, c⟩, follows,
      ⟨⟨live, ⟨k, c'⟩, next, ⟨stage', served', clears⟩, empties⟩, unhalted⟩, e, he, own⟩ := found
    obtain ⟨s, rfl⟩ := Stroke.exists_of_stage? served
    obtain ⟨s', rfl⟩ := Stroke.exists_of_stage? served'
    have st := Scene.step_next next
    cases stage' with
    | clear =>
      obtain ⟨rfl, -⟩ := st.split_serve
      have before (s : State) : .served s .halt ∉ ks := fun hs => by cases unhalted _ hs
      exact ⟨ks₀, c₀, s, stage, c₁, r, ks, c, c', v₀, Scene.step_next next₀, opens,
        Scene.weave_follow follows, live, st, before, ⟨e, he, own⟩, List.isEmpty_iff.mp empties⟩
    | _ => cases clears
  · -- The observer has got as far as its stop when the first run is stopped from outside.
    obtain ⟨ks, c, v, -, found⟩ := @Scene.exists_weave ⟨{}, 500, true⟩ .fresh w
      (waiting ++ .turn 0 :: List.replicate 14 (.go 0) ++
        [.ask .stop, .serve 1, .serve 1, .serve 1, .turn 0, .go 0, .go 0, .ask (.start .brief),
          .serve 2])
      (fun _ c => c.state.run.any fun r => !c.state.isCancelled r.token &&
        (c.next ⟨{}, 500, true⟩ w (.go 1)).any fun x => (x.1.halting?.any fun t =>
          t.lane?.any fun lane => lane.run.token != r.token) && x.2.state.isCancelled r.token)
      (by decide +kernel)
    simp only [Option.any_eq_true, Bool.and_eq_true, Bool.not_eq_true', bne_iff_ne] at found
    obtain ⟨r, run, live, ⟨k, c'⟩, next, ⟨t, halts, lane, within, other⟩, stopped⟩ := found
    obtain ⟨w, s, rfl⟩ := Stroke.exists_of_halting? halts
    have st := Scene.step_next next
    obtain ⟨-, rfl, -⟩ := st.after_work
    exact ⟨ks, c, w, t, lane, r, c', v, run, live, st, within, other, stopped⟩

end DeskScript
