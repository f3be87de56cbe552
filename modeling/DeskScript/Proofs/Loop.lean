import DeskScript.Proofs.Life
import DeskScript.Proofs.Silence

/-! The loop of a run goes its own way: whatever other threads do and whatever is asked, its work
develops from piece to piece until the run is stopped. -/

namespace DeskScript

/-! ### Pieces of work -/

/-- A piece of work that was done, with the world and the state in which it was. -/
structure Piece where
  world : World
  state : State
  job : Job

namespace Piece

def mark? (p : Piece) : Option Mark := p.job.mark p.world

def next (setup : Setup) (p : Piece) : Work := (p.job.run setup p.world p.state).next

end Piece

/-- The pieces of work, done one after the other, lead from the first work to the second. The run is
stopped by none of them. -/
inductive Work.Goes (setup : Setup) (work : Work) : List Piece → Work → Prop
  | refl : Goes setup work [] work
  | snoc {ps : List Piece} {p : Piece} {rest : Work} : Goes setup work ps (p.job :: rest) →
      p.job.isHalt = false → Goes setup work (ps ++ [p]) (p.next setup ++ rest)

/-- The piece of work that the loop of the run does, as long as the run is not stopped. -/
def Happening.piece? (r : Run) : Happening → Option Piece
  | .worked w s t job => if t.isLoopOf r && !s.isCancelled r.token then some ⟨w, s, job⟩ else none
  | .asked _ | .shifted => none

/-- Whether a run is stopped from outside or by an observer. -/
def Happening.isStop : Happening → Bool
  | .asked .stop => true
  | .worked _ _ t .halt => t.role == .watcher
  | _ => false

/-- The run goes on, and its loop has the work before it. -/
structure Moment.Loops (m : Moment) (r : Run) (work : Work) : Prop where
  run : m.state.run = some r
  live : m.state.isCancelled r.token = false
  loop : ∃ t ∈ m.threads, t.isLoopOf r = true ∧ t.work = work
  ne_nil : work ≠ []

variable {setup : Setup} {m m' : Moment} {r : Run} {work : Work} {e : Happening}

theorem Thread.isLoopOf_iff {t : Thread} :
    t.isLoopOf r = true ↔ t.role = .foreground ∧ t.token = some r.token := by
  simp [isLoopOf]

theorem Moment.mem_threads_some {s : State} {t u : Thread} :
    t ∈ (Moment.mk s (some u)).threads ↔ t = u ∨ t ∈ s.threads := by
  simp [threads]

theorem Moment.mem_threads_none {s : State} {t : Thread} :
    t ∈ (Moment.mk s none).threads ↔ t ∈ s.threads := by
  simp [threads]

/-- After a piece of work its thread is still there with what is left, and so are all others. -/
theorem Moment.Step.after {w : World} {s : State} {t : Thread} {job : Job}
    (st : m.Step setup (.worked w s t job) m') :
    ∃ rest, t.work = job :: rest ∧ m = ⟨s, some t⟩ ∧
      (∃ threads, m'.state = { (job.run setup w s).state with threads }) ∧
      (∃ due, { t.advance (job.run setup w s) rest with due } ∈ m'.threads) ∧
      ∀ u ∈ (job.run setup w s).state.threads, u ∈ m'.threads := by
  cases st with
  | work _ hw hp =>
    exact ⟨_, hw, rfl, ⟨_, rfl⟩, ⟨t.due, mem_threads_some.mpr (.inl rfl)⟩,
      fun u hu => mem_threads_some.mpr (.inr hu)⟩
  | wait _ hw hp =>
    exact ⟨_, hw, rfl, ⟨_, rfl⟩, ⟨_, mem_threads_none.mpr (mem_enqueue.mpr (.inl rfl))⟩,
      fun u hu => mem_threads_none.mpr (mem_enqueue.mpr (.inr hu))⟩
  | await _ due hw ha =>
    exact ⟨_, hw, rfl, ⟨_, rfl⟩, ⟨_, mem_threads_none.mpr (mem_enqueue.mpr (.inl rfl))⟩,
      fun u hu => mem_threads_none.mpr (mem_enqueue.mpr (.inr hu))⟩

theorem State.start_of_run {s : State} (h : s.Orderly) (hr : s.run = some r) (script : Script) :
    s.start setup script = (false, s) := by
  have busy : s.phase ≠ .idle := by
    rw [ne_eq, h.idle_iff, hr]
    simp
  unfold start openRun
  rw [if_neg busy]
  split <;> rfl

/-- What is asked leaves a run that goes on and all threads as they are, unless it stops the run. -/
theorem Intervention.spares_take {s : State} (h : s.Orderly) (hr : s.run = some r)
    {i : Intervention} (hi : i ≠ .stop) :
    (i.take setup s).2.run = some r ∧ (i.take setup s).2.cancelled = s.cancelled ∧
      (i.take setup s).2.threads = s.threads := by
  have change (before after : Phase) (e : Event) : (s.change before after e).2.run = some r ∧
      (s.change before after e).2.cancelled = s.cancelled ∧
      (s.change before after e).2.threads = s.threads := by
    unfold State.change State.transition
    by_cases hp : s.phase = before
    · rw [if_pos hp]
      exact ⟨hr, rfl, rfl⟩
    · rw [if_neg hp]
      exact ⟨hr, rfl, rfl⟩
  cases i with
  | start script =>
    simp only [take, State.start_of_run h hr]
    exact ⟨hr, trivial, trivial⟩
  | pause => exact change _ _ _
  | resume => exact change _ _ _
  | stop => exact absurd rfl hi

theorem State.isCancelled_stop {s : State} (hr : s.run = some r) :
    s.stop.isCancelled r.token = true := by
  unfold stop
  dsimp only
  have hc : s.halt.2.clear.isCancelled r.token = true :=
    s.halt.2.later_clear.cancelled _ (isCancelled_halt hr)
  split <;> exact hc

/-- What a step can do to the loop of a run: nothing, a piece of its work, or the end of the run, which
comes from elsewhere or from the loop itself. -/
inductive Moment.LoopStep (setup : Setup) (r : Run) (work : Work) (e : Happening) (m' : Moment) : Prop
  | aside : e.piece? r = none → m'.Loops r work → LoopStep setup r work e m'
  | own (p : Piece) (rest : Work) : e.piece? r = some p → work = p.job :: rest →
      p.job.isHalt = false → m'.Loops r (p.next setup ++ rest) → LoopStep setup r work e m'
  | stopped : e.piece? r = none → e.isStop = true → m'.state.isCancelled r.token = true →
      LoopStep setup r work e m'
  | halted (p : Piece) (rest : Work) : e.piece? r = some p → work = .halt :: rest → p.job = .halt →
      m'.state.isCancelled r.token = true → LoopStep setup r work e m'

/-- In a sound moment at which the run goes on, the active thread with work before it is alive. -/
theorem Moment.Sound.alive {s : State} {t : Thread} {job : Job} {rest : Work}
    (sound : Sound ⟨s, some t⟩) (hr : s.run = some r) (live : s.isCancelled r.token = false)
    (hw : t.work = job :: rest) : t.Alive s := by
  rcases sound.active t rfl with hn | ⟨alive, -⟩ | ⟨r', past⟩
  · rw [hw] at hn
    cases hn
  · exact alive
  · obtain rfl : r = r' := Option.some.inj (hr.symm.trans past.run)
    exact absurd (past.cancelled.symm.trans live) (by simp)

namespace Moment.Loops

theorem ask {s : State} {i : Intervention} (h : Loops ⟨s, none⟩ r work) (sound : Sound ⟨s, none⟩) :
    LoopStep setup r work (.asked i) ⟨(i.take setup s).2, none⟩ := by
  obtain ⟨hr, live, ⟨t, ht, loop, hw⟩, hn⟩ := h
  by_cases hi : i = .stop
  · subst hi
    exact .stopped rfl rfl (State.isCancelled_stop hr)
  · obtain ⟨run, cancelled, threads⟩ := @Intervention.spares_take setup r s sound.orderly hr i hi
    refine .aside rfl ⟨run, ?_, ⟨t, ?_, loop, hw⟩, hn⟩
    · exact (State.isCancelled_congr cancelled _).trans live
    · simpa only [Moment.threads, threads] using ht

theorem shift (h : m.Loops r work) (st : m.Step setup .shifted m') :
    LoopStep setup r work .shifted m' := by
  obtain ⟨hr, live, ⟨t, ht, loop, hw⟩, hn⟩ := h
  refine .aside rfl ?_
  cases st with
  | pass s ms => exact ⟨hr, live, ⟨t, ht, loop, hw⟩, hn⟩
  | @turn s before after u hs ready =>
    have ht : t ∈ before ++ u :: after := hs ▸ mem_threads_none.mp ht
    refine ⟨hr, live, ⟨t, mem_threads_some.mpr ?_, loop, hw⟩, hn⟩
    rcases List.mem_append.mp ht with hb | hu
    · exact .inr (List.mem_append_left _ hb)
    · rcases List.mem_cons.mp hu with rfl | ha
      · have live : s.isCancelled r.token = false := live
        refine .inl ?_
        simp [Thread.resume, (Thread.isLoopOf_iff.mp loop).2, live]
      · exact .inr (List.mem_append_right _ ha)
  | @leave s u hu =>
    refine ⟨hr, live, ⟨t, mem_threads_none.mpr ?_, loop, hw⟩, hn⟩
    refine (mem_threads_some.mp ht).resolve_left ?_
    rintro rfl
    exact hn (hw.symm.trans hu)

/-- The loop of the run does a piece of its work. -/
theorem worked_own {w : World} {s : State} {u : Thread} {job : Job} (h : m.Loops r work)
    (sound : m.Sound) (st : m.Step setup (.worked w s u job) m') (hl : u.isLoopOf r = true) :
    LoopStep setup r work (.worked w s u job) m' := by
  obtain ⟨hr, live, ⟨t, ht, loop, hw⟩, hn⟩ := h
  obtain ⟨rest, hu, rfl, ⟨threads, hs⟩, ⟨due, hd⟩, -⟩ := st.after
  have hr : s.run = some r := hr
  have live : s.isCancelled r.token = false := live
  have alive : u.Alive s := sound.alive hr live hu
  have same : t = u := by
    refine (mem_threads_some.mp ht).resolve_right fun hm => ?_
    exact sound.alone (Thread.isLoopOf_iff.mp hl).1 t hm (Thread.isLoopOf_iff.mp loop).1
  have hp : Happening.piece? r (.worked w s u job) = some ⟨w, s, job⟩ := by
    simp [Happening.piece?, hl, live]
  have hw : work = job :: rest := by rw [← hw, same, hu]
  by_cases hh : job.isHalt = true
  · obtain rfl : job = .halt := Job.eq_halt hh
    refine .halted _ rest hp hw rfl ?_
    rw [hs]
    exact State.isCancelled_halt hr
  · have hh : job.isHalt = false := by simpa using hh
    have spares : s.Spares (job.run setup w s).state := alive.spares hu hh sound.live
    refine .own _ rest hp hw hh ⟨?_, ?_, ⟨_, hd, hl, rfl⟩, ?_⟩
    · rw [hs]
      exact spares.run.trans hr
    · rw [hs]
      exact (State.isCancelled_congr spares.cancelled _).trans live
    · exact (alive.advance hu hh spares).ne_nil

/-- Another thread does a piece of work. -/
theorem worked_other {w : World} {s : State} {u : Thread} {job : Job} (h : m.Loops r work)
    (sound : m.Sound) (st : m.Step setup (.worked w s u job) m') (hl : u.isLoopOf r = false) :
    LoopStep setup r work (.worked w s u job) m' := by
  obtain ⟨hr, live, ⟨t, ht, loop, hw⟩, hn⟩ := h
  obtain ⟨rest, hu, rfl, ⟨threads, hs⟩, -, others⟩ := st.after
  have hr : s.run = some r := hr
  have live : s.isCancelled r.token = false := live
  have alive : u.Alive s := sound.alive hr live hu
  have hp : Happening.piece? r (.worked w s u job) = none := by simp [Happening.piece?, hl]
  have there : t ∈ s.threads := by
    refine (mem_threads_some.mp ht).resolve_left ?_
    rintro rfl
    exact absurd (hl.symm.trans loop) (by simp)
  by_cases hh : job.isHalt = true
  · obtain rfl : job = .halt := Job.eq_halt hh
    refine .stopped hp ?_ ?_
    · -- A thread that is not the loop can only be the one that polls the observers.
      obtain ⟨lane, k, serves, grants, -⟩ := alive
      obtain rfl : lane.run = r := Option.some.inj (grants.run.symm.trans hr)
      cases serves.closes grants with
      | loop role token _ =>
        have loop' := Thread.isLoopOf_iff.mpr ⟨role, token⟩
        exact absurd (hl.symm.trans loop') (by simp)
      | watcher role _ => simp [Happening.isStop, role]
    · rw [hs]
      exact State.isCancelled_halt hr
  · have hh : job.isHalt = false := by simpa using hh
    have spares : s.Spares (job.run setup w s).state := alive.spares hu hh sound.live
    refine .aside hp ⟨?_, ?_, ⟨t, others t ?_, loop, hw⟩, hn⟩
    · rw [hs]
      exact spares.run.trans hr
    · rw [hs]
      exact (State.isCancelled_congr spares.cancelled _).trans live
    · rcases spares.polling with ⟨-, ht'⟩ | ⟨-, -, -, due, ht'⟩
      · rwa [ht']
      · rw [ht']
        exact List.mem_append_left _ there

theorem step (h : m.Loops r work) (sound : m.Sound) (st : m.Step setup e m') :
    LoopStep setup r work e m' := by
  cases e with
  | asked i =>
    cases st with
    | ask s i => exact h.ask sound
  | shifted => exact h.shift st
  | worked w s u job =>
    cases hl : u.isLoopOf r with
    | true => exact h.worked_own sound st hl
    | false => exact h.worked_other sound st hl

end Moment.Loops

/-- The pieces of work that the loop of the run does in the course. -/
def Course.pieces (r : Run) (hs : List Happening) : List Piece := hs.filterMap (·.piece? r)

theorem Course.pieces_snoc (r : Run) (hs : List Happening) (e : Happening) :
    pieces r (hs ++ [e]) = pieces r hs ++ (e.piece? r).toList := by
  cases he : e.piece? r <;> simp [pieces, he]

/-- In every course the loop of a run goes its own way, to the end of the course or until the run is
stopped, from elsewhere or by the loop itself. -/
theorem Course.loop {hs : List Happening} (c : Course setup m hs m') (sound : m.Sound)
    (h : m.Loops r work) : ∃ ps work', work.Goes setup ps work' ∧
      ((pieces r hs = ps ∧ m'.Loops r work') ∨
        m'.state.isCancelled r.token = true ∧
          ((pieces r hs = ps ∧ ∃ e ∈ hs, e.isStop = true) ∨
            ∃ p rest, work' = .halt :: rest ∧ p.job = .halt ∧ pieces r hs = ps ++ [p])) := by
  induction c with
  | refl => exact ⟨[], work, .refl, .inl ⟨rfl, h⟩⟩
  | @snoc m₁ m₂ hs e c st ih =>
    obtain ⟨ps, work', goes, ⟨hp, loops⟩ | ⟨hc, stopped⟩⟩ := ih
    · have grown : pieces r (hs ++ [e]) = ps ++ (e.piece? r).toList := by rw [pieces_snoc, hp]
      cases loops.step (c.sound sound) st with
      | aside he loops' =>
        refine ⟨ps, work', goes, .inl ⟨?_, loops'⟩⟩
        rw [grown, he]
        exact List.append_nil _
      | own p rest he hw hh loops' =>
        rw [hw] at goes
        refine ⟨ps ++ [p], _, goes.snoc hh, .inl ⟨?_, loops'⟩⟩
        rw [grown, he]
        rfl
      | stopped he hi hc =>
        refine ⟨ps, work', goes, .inr ⟨hc, .inl ⟨?_, e, by simp, hi⟩⟩⟩
        rw [grown, he]
        exact List.append_nil _
      | halted p rest he hw hj hc =>
        refine ⟨ps, work', goes, .inr ⟨hc, .inr ⟨p, rest, hw, hj, ?_⟩⟩⟩
        rw [grown, he]
        rfl
    · have silent : e.piece? r = none := by
        cases e with
        | worked w s t job =>
          obtain ⟨rfl, -⟩ := st.worked
          have hc : s.isCancelled r.token = true := hc
          simp [Happening.piece?, hc]
        | asked | shifted => rfl
      have same : pieces r (hs ++ [e]) = pieces r hs := by
        rw [pieces_snoc, silent]
        exact List.append_nil _
      refine ⟨ps, work', goes, .inr ⟨st.later.cancelled _ hc, ?_⟩⟩
      rw [same]
      refine stopped.imp ?_ id
      rintro ⟨hp, e', he', hi⟩
      exact ⟨hp, e', List.mem_append_left _ he', hi⟩

end DeskScript
