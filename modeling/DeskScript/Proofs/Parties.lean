import DeskScript.Proofs.Silence
import DeskScript.Proofs.Weaving

/-! Who is at work in a weave. The current run has one loop, and there is no other; every other thread
ticks, or is at steps of a run that is current or has been stopped. -/

namespace DeskScript

variable {setup : Setup} {w : World} {s s' : State} {t : Thread} {job : Job} {rest : Work} {r : Run}
  {c c' : Scene} {k : Stroke} {ks : List Stroke} {lane : Lane}

/-! ### Work in the middle of steps -/

namespace Job

/-- Whether the work is done for the lane in the middle of its steps, or stops the current run. -/
def IsFor (lane : Lane) : Job → Prop
  | .level l _ | .levelOpen l _ _ | .enter l _ | .body l _ | .decide l _ _ _ => l = lane
  | .enlist r _ | .enlistOpen r _ => r = lane.run
  | .aim _ _ _ _ | .act _ _ _ _ | .report _ _ _ _ | .rest _ | .halt | .clear | .tell _ => True
  | _ => False

/-- Whether the work is to go on with steps in a row. -/
def isRow : Job → Bool
  | .level _ _ | .levelOpen _ _ _ => true
  | _ => false

/-- Whether the work belongs to a tick of the observers, or to the wait for the next. -/
def isOfTick : Job → Bool
  | .watch _ | .survey | .probe _ | .takeIn _ | .relax _ | .giveWay _ => true
  | _ => false

/-- Work for a lane leaves only such work. -/
theorem IsFor.next (h : job.IsFor lane) : ∀ j ∈ (job.run setup w s).next, j.IsFor lane := by
  cases job with
  | level l steps =>
    cases steps with
    | nil => simp [run]
    | cons step steps =>
      simp only [run, guarded]
      split
      · simp
      · simpa [IsFor] using h
  | levelOpen l step steps =>
    simp only [run, unlessPaused]
    split
    · simp
    · simpa [IsFor] using h
  | enter l step => simpa [run, IsFor] using h
  | body l step =>
    obtain rfl : l = lane := h
    cases step <;> simp [run, ofStep, IsFor]
  | decide l q thens elses =>
    obtain rfl : l = lane := h
    cases q <;> simp [run, IsFor]
  | aim step action since q => cases q <;> simp [run, IsFor]
  | act step action since place =>
    simp only [run, perform]
    split <;> simp [IsFor]
  | report step action since ok =>
    simp only [run, afterAction]
    split <;> simp [IsFor]
  | enlist r o =>
    simp only [run, guarded]
    split
    · simp
    · simpa [IsFor] using h
  | halt =>
    simp only [run]
    split <;> simp [IsFor]
  | enlistOpen | rest | clear | tell => simp [run]
  | _ => exact absurd h id

/-- A tick goes on or ends, or an observer is taken in for the current run. -/
theorem next_of_isOfTick (h : job.isOfTick = true) (setup : Setup) (w : World) (s : State) :
    (∀ j ∈ (job.run setup w s).next, j.isOfTick = true) ∨
      ∃ (o : Observer) (r : Run), s.phase = .running ∧ s.run = some r ∧ (job.run setup w s).next =
        [.tell (.observerTriggered o.id), .level ⟨r, false⟩ o.steps] := by
  cases job with
  | watch k | relax k =>
    refine .inl ?_
    simp only [run, guarded]
    split <;> simp [isOfTick]
  | survey => exact .inl (by simp [run, isOfTick])
  | giveWay ms => exact .inl (by simp [run])
  | probe q =>
    cases q with
    | ask e next => exact .inl (by simp [run, isOfTick])
    | done fired => cases fired <;> exact .inl (by simp [run, isOfTick])
  | takeIn o =>
    simp only [run]
    split
    · rename_i r hp hr
      exact .inr ⟨o, r, hp, hr, rfl⟩
    · exact .inl (by simp)
  | _ => cases h

end Job

/-- Work in the middle of the steps of a lane. The last of it is to go on with the steps. -/
structure Lane.Path (lane : Lane) (work : Work) : Prop where
  own : ∀ job ∈ work, job.IsFor lane
  row : ∀ job ∈ work.getLast?, job.isRow = true

namespace Lane.Path

theorem nil (lane : Lane) : lane.Path [] := ⟨by simp, by simp⟩

theorem takenIn (o : Observer) (lane : Lane) :
    lane.Path [.tell (.observerTriggered o.id), .level lane o.steps] :=
  ⟨by simp [Job.IsFor], by simp [Job.isRow]⟩

theorem head (h : lane.Path (job :: rest)) : job.IsFor lane := h.own job (by simp)

/-- Work of a lane leaves work of the lane, whether or not its run goes on. -/
theorem run (h : lane.Path (job :: rest)) : lane.Path ((job.run setup w s).next ++ rest) := by
  obtain ⟨hj, behind⟩ := List.forall_mem_cons.mp h.own
  refine ⟨List.forall_mem_append.mpr ⟨hj.next, behind⟩, ?_⟩
  have row := h.row
  cases rest with
  | cons j rest =>
    rw [List.getLast?_cons_cons] at row
    rw [List.getLast?_append, List.getLast?_cons]
    rw [List.getLast?_cons] at row
    exact row
  | nil =>
    rw [List.append_nil]
    have last : job.isRow = true := row job rfl
    cases job with
    | level l steps =>
      cases steps with
      | nil => simp [Job.run]
      | cons step steps =>
        simp only [Job.run, Job.guarded]
        split <;> simp [Job.isRow]
    | levelOpen l step steps =>
      simp only [Job.run, Job.unlessPaused]
      split <;> simp [Job.isRow]
    | _ => cases last

end Lane.Path

/-! ### Loops and watchers -/

/-- What the loop of the run has before it outside the steps. -/
inductive Run.Outer (r : Run) : Work → Prop
  | resting {pauses : Work} : (∀ job ∈ pauses, job.isPause = true) →
      Outer r (pauses ++ [.iterate r])
  | opening : Outer r [.iterateOpen r]
  | ending : Outer r [.endIteration r]
  | counting : Outer r [.count r]

/-- The thread is the loop of the run, and has yet to wind it up. -/
structure Thread.Loops (r : Run) (t : Thread) : Prop where
  role : t.role = .foreground
  token : t.token = some r.token
  closing : t.closing = State.closing r
  work : ∃ path outer, t.work = path ++ (outer ++ State.closing r) ∧ Lane.Path ⟨r, true⟩ path ∧
    r.Outer outer

/-- The thread is the loop of the run, which has been stopped, and is winding it up. -/
structure Thread.Winds (s : State) (r : Run) (t : Thread) : Prop where
  role : t.role = .foreground
  closing : t.closing = State.closing r
  cancelled : s.isCancelled r.token = true
  work : t.work <:+ State.closing r

/-- The run is the current one, or it has been stopped. -/
def State.Knows (s : State) (r : Run) : Prop := s.run = some r ∨ s.isCancelled r.token = true

/-- The thread ticks, or is at the steps of an observer that fired. -/
structure Thread.Watches (s : State) (t : Thread) : Prop where
  role : t.role ≠ .foreground
  closing : t.closing = []
  work : ∃ r path ticks, t.work = path ++ ticks ∧ Lane.Path ⟨r, false⟩ path ∧
    (path ≠ [] → s.Knows r) ∧ ∀ job ∈ ticks, job.isOfTick = true

namespace Run.Outer

variable {outer : Work}

theorem ne_nil (h : r.Outer outer) : outer ≠ [] := by
  cases h <;> simp

theorem cases_cons (h : r.Outer (job :: outer)) : (job.isPause = true ∧ r.Outer outer) ∨
    outer = [] ∧ (job = .iterate r ∨ job = .iterateOpen r ∨ job = .endIteration r ∨ job = .count r) := by
  generalize hl : job :: outer = l at h
  cases h with
  | @resting pauses hp =>
    cases pauses with
    | nil =>
      cases hl
      exact .inr ⟨rfl, .inl rfl⟩
    | cons j pauses =>
      cases hl
      exact .inl ⟨hp _ (by simp), .resting fun j hj => hp j (by simp [hj])⟩
  | opening | ending | counting =>
    cases hl
    simp

/-- What the loop does outside the steps keeps it there or takes it to the steps, unless the run has been
stopped. -/
theorem next (h : r.Outer (job :: outer)) (setup : Setup) (w : World) (s : State) :
    (∃ path outer', (job.run setup w s).next ++ outer = path ++ outer' ∧ Lane.Path ⟨r, true⟩ path ∧
        r.Outer outer') ∨
      (s.isCancelled r.token = true ∧ (job.run setup w s).next ++ outer = [] ∧
        (job.run setup w s).pause = none ∧ job.asks = false) := by
  have stay {work : Work} (h : r.Outer work) :
      ∃ path outer', work = path ++ outer' ∧ Lane.Path ⟨r, true⟩ path ∧ r.Outer outer' :=
    ⟨[], work, rfl, .nil _, h⟩
  rcases h.cases_cons with ⟨pause, outside⟩ | ⟨rfl, rfl | rfl | rfl | rfl⟩
  · cases job with
    | rest | giveWay => exact .inl (stay outside)
    | _ => cases pause
  · simp only [Job.run, Job.guarded]
    split
    · rename_i hc
      exact .inr ⟨hc, rfl, rfl, rfl⟩
    · exact .inl (stay .opening)
  · simp only [Job.run]
    split
    · exact .inl (stay (@resting r [.giveWay _] (by simp [Job.isPause])))
    · refine .inl ⟨[.level ⟨r, true⟩ r.script.steps], [.endIteration r], rfl, ⟨?_, ?_⟩, .ending⟩
      · simp [Job.IsFor]
      · simp [Job.isRow]
  · simp only [Job.run, Job.guarded]
    split
    · rename_i hc
      exact .inr ⟨hc, rfl, rfl, rfl⟩
    · exact .inl (stay .counting)
  · exact .inl (stay (@resting r [.giveWay 0, .rest _] (by simp [Job.isPause])))

end Run.Outer

theorem State.Knows.mono (h : s.Knows r) (later : s.Later s')
    (gone : s.run = some r → s'.run = some r ∨ s.isCancelled r.token = true) : s'.Knows r := by
  rcases h with hr | hc
  · exact (gone hr).imp id (later.cancelled _)
  · exact .inr (later.cancelled _ hc)

namespace Thread

/-- The thread as the work leaves it, waiting until the time `due`. -/
def after (t : Thread) (o : Outcome) (rest : Work) (due : Nat) : Thread :=
  { t.advance o rest with due }

variable {due : Nat}

/-- The loop of a run is at a step or between two iterations. -/
theorem Loops.cases_cons (h : t.Loops r) (hw : t.work = job :: rest) :
    (∃ path outer, rest = path ++ (outer ++ State.closing r) ∧ Lane.Path ⟨r, true⟩ (job :: path) ∧
      r.Outer outer) ∨ ∃ outer, rest = outer ++ State.closing r ∧ r.Outer (job :: outer) := by
  obtain ⟨path, outer, hp, steps, outside⟩ := h.work
  rw [hp] at hw
  cases path with
  | cons j path =>
    obtain ⟨rfl, rfl⟩ := List.cons.inj hw
    exact .inl ⟨path, outer, rfl, steps, outside⟩
  | nil =>
    cases outer with
    | nil => exact absurd rfl outside.ne_nil
    | cons j outer =>
      obtain ⟨rfl, rfl⟩ := List.cons.inj hw
      exact .inr ⟨outer, rfl, outside⟩

/-- The loop of a run goes on, or winds the run up once that has been stopped. -/
theorem Loops.after (h : t.Loops r) (hw : t.work = job :: rest) (later : s.Later s') (setup : Setup)
    (w : World) (due : Nat) :
    (t.after (job.run setup w s) rest due).Loops r ∨
      ((t.after (job.run setup w s) rest due).Winds s' r ∧
        (t.after (job.run setup w s) rest due).work = State.closing r ∧
        (job.run setup w s).pause = none ∧ job.asks = false) := by
  rcases h.cases_cons hw with ⟨path, outer, rfl, steps, outside⟩ | ⟨outer, rfl, outside⟩
  · exact .inl ⟨h.role, h.token, h.closing, _, outer, (List.append_assoc _ _ _).symm, steps.run, outside⟩
  · rcases outside.next setup w s with
      ⟨path, outer', hn, steps, outside'⟩ | ⟨hc, hn, pause, asks⟩
    · refine .inl ⟨h.role, h.token, h.closing, path, outer', ?_, steps, outside'⟩
      rw [← List.append_assoc, ← hn, List.append_assoc]
      rfl
    · have work : (t.after (job.run setup w s) (outer ++ State.closing r) due).work =
          State.closing r := by
        change (job.run setup w s).next ++ (outer ++ State.closing r) = State.closing r
        rw [← List.append_assoc, hn, List.nil_append]
      refine .inr ⟨⟨h.role, h.closing, later.cancelled _ hc, ?_⟩, work, pause, asks⟩
      simp only [work, List.suffix_refl]

/-- A run is wound up by clearing the registry, and then by forgetting the run. -/
theorem Winds.cases_cons (h : t.Winds s r) (hw : t.work = job :: rest) :
    (job = .clear ∧ rest = [.settle r]) ∨ (job = .settle r ∧ rest = []) := by
  have suffix := h.work
  rw [hw, State.closing, List.suffix_cons_iff, List.suffix_cons_iff, List.suffix_nil] at suffix
  simpa using suffix

theorem Winds.after (h : t.Winds s r) (hw : t.work = job :: rest) (later : s.Later s') (setup : Setup)
    (w : World) (due : Nat) :
    (t.after (job.run setup w s) rest due).Winds s' r := by
  have quiet : (job.run setup w s).next = [] := by
    rcases h.cases_cons hw with ⟨rfl, -⟩ | ⟨rfl, -⟩ <;> rfl
  refine ⟨h.role, h.closing, later.cancelled _ h.cancelled, ?_⟩
  change (job.run setup w s).next ++ rest <:+ State.closing r
  rw [quiet, List.nil_append]
  exact (List.suffix_cons job rest).trans (hw ▸ h.work)

theorem Watches.mono (h : t.Watches s) (known : ∀ r, s.Knows r → s'.Knows r) : t.Watches s' := by
  obtain ⟨r, path, ticks, hw, steps, hk, tick⟩ := h.work
  exact ⟨h.role, h.closing, r, path, ticks, hw, steps, fun hn => known r (hk hn), tick⟩

theorem Watches.cases_cons (h : t.Watches s) (hw : t.work = job :: rest) :
    (∃ r path ticks, rest = path ++ ticks ∧ Lane.Path ⟨r, false⟩ (job :: path) ∧ s.Knows r ∧
      ∀ j ∈ ticks, j.isOfTick = true) ∨ job.isOfTick = true ∧ ∀ j ∈ rest, j.isOfTick = true := by
  obtain ⟨r, path, ticks, hp, steps, hk, tick⟩ := h.work
  rw [hp] at hw
  cases path with
  | cons j path =>
    obtain ⟨rfl, rfl⟩ := List.cons.inj hw
    exact .inl ⟨r, path, ticks, rfl, steps, hk (by simp), tick⟩
  | nil =>
    obtain rfl : ticks = job :: rest := hw
    exact .inr (List.forall_mem_cons.mp tick)

theorem Watches.after (h : t.Watches s) (hw : t.work = job :: rest)
    (known : ∀ r, s.Knows r → s'.Knows r) :
    (t.after (job.run setup w s) rest due).Watches s' := by
  rcases h.cases_cons hw with ⟨r, path, ticks, rfl, steps, hk, tick⟩ | ⟨hj, behind⟩
  · exact ⟨h.role, h.closing, r, _, ticks, (List.append_assoc _ _ _).symm, steps.run,
      fun _ => known r hk, tick⟩
  · rcases Job.next_of_isOfTick hj setup w s with hn | ⟨o, r, -, hr, hn⟩
    · exact ⟨h.role, h.closing, default, [], _, rfl, .nil _, fun hn => absurd rfl hn,
        List.forall_mem_append.mpr ⟨hn, behind⟩⟩
    · refine ⟨h.role, h.closing, r, _, rest, rfl, ?_, fun _ => known r (.inl hr), behind⟩
      rw [hn]
      exact .takenIn o ⟨r, false⟩

theorem watches_watcher (s : State) (k : Token) (due : Nat) : (watcher k due).Watches s :=
  ⟨by simp [watcher], rfl, default, [], _, rfl, .nil _, fun hn => absurd rfl hn,
    by simp [Job.isOfTick]⟩

/-- The thread may be in line. -/
def Suits (s : State) (t : Thread) : Prop := (∃ r, t.Loops r) ∨ t.Watches s

theorem Suits.mono (h : t.Suits s) (known : ∀ r, s.Knows r → s'.Knows r) : t.Suits s' :=
  h.imp_right fun h => h.mono known

/-- The thread may be active. -/
def Acts (s : State) (t : Thread) : Prop := t.Suits s ∨ ∃ r, t.Winds s r

theorem Winds.mono (h : t.Winds s r) (later : s.Later s') : t.Winds s' r :=
  ⟨h.role, h.closing, later.cancelled _ h.cancelled, h.work⟩

theorem Acts.mono (h : t.Acts s) (later : s.Later s') (known : ∀ r, s.Knows r → s'.Knows r) :
    t.Acts s' := by
  refine h.imp (fun suits => suits.mono known) ?_
  rintro ⟨r, winds⟩
  exact ⟨r, winds.mono later⟩

/-- A thread that goes on after waiting does what it was at, or is dropped. -/
theorem Suits.resume (h : t.Suits s) :
    (t.resume s = t ∧ t.token.any s.isCancelled = false) ∨ (t.resume s).work = [] ∧
      (t.resume s).Watches s ∨ ∃ r, t.Loops r ∧ (t.resume s).Winds s r ∧
        (t.resume s).work = State.closing r := by
  unfold Thread.resume
  cases ht : t.token with
  | none => exact .inl ⟨rfl, rfl⟩
  | some k =>
    dsimp only
    split
    · rename_i hc
      rcases h with ⟨r, loops⟩ | watches
      · obtain rfl : r.token = k := Option.some.inj (loops.token.symm.trans ht)
        have winds : Winds s r { t with work := t.closing, token := none } :=
          ⟨loops.role, loops.closing, hc, by simp only [loops.closing, List.suffix_refl]⟩
        exact .inr (.inr ⟨r, loops, winds, loops.closing⟩)
      · refine .inr (.inl ⟨watches.closing, watches.role, watches.closing, ?_⟩)
        exact ⟨default, [], [], watches.closing, .nil _, fun hn => absurd rfl hn, by simp⟩
    · rename_i hc
      exact .inl ⟨rfl, by simpa using hc⟩

end Thread

/-! ### The loop of the current run -/

/-- The run whose loop the thread is, unless it has nothing left to do. -/
def Thread.loop? (t : Thread) : Option Run :=
  match t.role, t.work, t.closing with
  | .foreground, _ :: _, [.clear, .settle r] => some r
  | _, _, _ => none

def Stage.launched? : Stage → Option Run
  | .launch r => some r
  | _ => none

theorem Stage.launched?_eq_some {stage : Stage} : stage.launched? = some r ↔ stage = .launch r := by
  cases stage <;> simp [launched?]

/-- The runs that have a loop or are about to get one. -/
def Scene.loops (c : Scene) : List Run :=
  c.threads.filterMap Thread.loop? ++ c.stages.filterMap Stage.launched?

namespace Thread

theorem loop?_of_role (h : t.role ≠ .foreground) : t.loop? = none := by
  unfold loop?
  split
  · rename_i role _ _
    exact absurd role h
  · rfl

theorem loop?_of_work (h : t.work = []) : t.loop? = none := by
  unfold loop?
  split
  · rename_i work _
    rw [h] at work
    cases work
  · rfl

theorem Winds.loop? (h : t.Winds s r) (hw : t.work ≠ []) : t.loop? = some r := by
  obtain ⟨job, rest, hw⟩ := List.exists_cons_of_ne_nil hw
  simp [Thread.loop?, h.role, h.closing, hw, State.closing]

theorem Loops.ne_nil (h : t.Loops r) : t.work ≠ [] := by
  obtain ⟨path, outer, hw, -⟩ := h.work
  simp [hw, State.closing]

theorem Loops.loop? (h : t.Loops r) : t.loop? = some r := by
  obtain ⟨job, rest, hw⟩ := List.exists_cons_of_ne_nil h.ne_nil
  simp [Thread.loop?, h.role, h.closing, hw, State.closing]

theorem loops_launch (s : State) (r : Run) :
    Loops r ⟨.foreground, some r.token, .iterate r :: State.closing r, State.closing r, s.clock⟩ :=
  ⟨rfl, rfl, rfl, [], _, rfl, .nil _, @Run.Outer.resting r [] (by simp)⟩

end Thread

/-- No thread in line is to wind up a run. -/
theorem Thread.Suits.ne_settle (h : t.Suits s) (hw : t.work = job :: rest) (r : Run) :
    job ≠ .settle r := by
  rintro rfl
  rcases h with ⟨r', loops⟩ | watches
  · rcases loops.cases_cons hw with ⟨path, outer, -, steps, -⟩ | ⟨outer, -, outside⟩
    · exact steps.head
    · rcases outside.cases_cons with ⟨pause, -⟩ | ⟨-, hj⟩
      · cases pause
      · simp at hj
  · rcases watches.cases_cons hw with ⟨r', path, ticks, -, steps, -⟩ | ⟨tick, -⟩
    · exact steps.head
    · cases tick

/-- Only by winding up its run does a loop cease to be one. -/
theorem Thread.loop?_after (h : t.Acts s) (hw : t.work = job :: rest) (setup : Setup) (w : World)
    (due : Nat) :
    ((t.after (job.run setup w s) rest due).loop? = t.loop? ∧ ∀ r, job ≠ .settle r) ∨
      ∃ r, job = .settle r ∧ rest = [] ∧ t.loop? = some r := by
  rcases h with suits | ⟨r, winds⟩
  · refine .inl ⟨?_, suits.ne_settle hw⟩
    rcases suits with ⟨r, loops⟩ | watches
    · rw [loops.loop?]
      rcases loops.after hw (job.later_run setup w s) setup w due with
        loops' | ⟨winds, hc, -⟩
      · exact loops'.loop?
      · exact winds.loop? (by simp [hc, State.closing])
    · have role : (t.after (job.run setup w s) rest due).role ≠ .foreground := watches.role
      exact (loop?_of_role role).trans (loop?_of_role watches.role).symm
  · rcases winds.cases_cons hw with ⟨rfl, rfl⟩ | ⟨rfl, rfl⟩
    · have winds' := winds.after hw (Job.later_run setup w s .clear) setup w due
      rw [winds.loop? (by simp [hw])]
      exact .inl ⟨winds'.loop? (by simp [after, advance]), by simp⟩
    · exact .inr ⟨r, rfl, rfl, winds.loop? (by simp [hw])⟩

end DeskScript
